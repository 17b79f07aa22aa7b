import Mathlib
import Lexicolor.Proofs.Readme.Body

/-!
# Filling a template at once

A template is cut at its tags in one way only. Filling the places one after the
other is the same as putting the three contents in their places at once, because
no tag arises where the body of settings meets what stands around it.
-/

namespace Lexicolor.Readme

open Json Text

/-! ## Tags -/

/-- What may be put into a template. -/
inductive Slot where
  | settings
  | srgb
  | config
  deriving DecidableEq

/-- The place of the slot in a template. -/
def Slot.tag : Slot → List Char
  | .settings => settingsPlace
  | .srgb => srgbPlace
  | .config => configPlace

/-- What is put into the slots. -/
def Slot.content (settings srgb config : List Char) : Slot → List Char
  | .settings => settings
  | .srgb => srgb
  | .config => config

/-- What the tags have in common at their start. -/
def opening : List Char := '\x7b' :: "Recommended".toList

namespace Slot

variable {slot other : Slot}

theorem opening_prefix_tag (slot : Slot) : opening <+: slot.tag := by
  cases slot <;> decide

theorem tag_ne_nil (slot : Slot) : slot.tag ≠ [] := by
  cases slot <;> decide

theorem head?_tag (slot : Slot) : slot.tag.head? = some '\x7b' := by
  cases slot <;> rfl

/-- No tag starts inside of another one. -/
theorem notMem_tag_tail (slot : Slot) : '\x7b' ∉ slot.tag.tail := by
  cases slot <;> decide

theorem not_tag_isPrefix (h : slot ≠ other) : ¬slot.tag <+: other.tag := by
  revert h
  cases slot <;> cases other <;> decide

end Slot

/-! ## Cuttings -/

/-- A text cut into texts and the slots between them. -/
inductive Cutting where
  | last (text : List Char)
  | part (text : List Char) (slot : Slot) (rest : Cutting)

/-- No tag stands in the text. -/
def TagFree (text : List Char) : Prop := ∀ slot : Slot, ¬slot.tag <:+: text

namespace Cutting

/-- The pieces in order, with the contents in the slots. -/
def render (content : Slot → List Char) : Cutting → List Char
  | last text => text
  | part text slot rest => text ++ (content slot ++ rest.render content)

/-- No piece has a tag. -/
def Clean : Cutting → Prop
  | last text => TagFree text
  | part text _ rest => TagFree text ∧ rest.Clean

/-- The template is cut at its tags, and no tag is left. -/
structure IsOf (cut : Cutting) (template : List Char) : Prop where
  eq : template = cut.render Slot.tag
  clean : cut.Clean

/-- The first piece with one more character. -/
def cons (c : Char) : Cutting → Cutting
  | last text => last (c :: text)
  | part text slot rest => part (c :: text) slot rest

/-- One cutting, a slot, and another cutting. -/
def append : Cutting → Slot → Cutting → Cutting
  | last text, slot, after => part text slot after
  | part text other rest, slot, after => part text other (rest.append slot after)

end Cutting

variable {cut cut' : Cutting} {slot slot' other : Slot} {c : Char}
variable {template text text' before after left right : List Char}

theorem Cutting.render_cons (content : Slot → List Char) (c : Char) (cut : Cutting) :
    (cut.cons c).render content = c :: cut.render content := by
  cases cut <;> rfl

theorem tagFree_cons (hstart : ∀ slot : Slot, ¬slot.tag <+: c :: (text ++ after))
    (h : TagFree text) : TagFree (c :: text) := by
  intro slot hin
  rcases List.infix_cons_iff.mp hin with hstarts | hin
  · exact hstart slot (hstarts.trans (List.prefix_append (c :: text) after))
  · exact h slot hin

theorem Cutting.IsOf.cons (h : cut.IsOf template)
    (hstart : ∀ slot : Slot, ¬slot.tag <+: c :: template) : (cut.cons c).IsOf (c :: template) := by
  obtain ⟨rfl, hclean⟩ := h
  refine ⟨(cut.render_cons Slot.tag c).symm, ?_⟩
  cases cut with
  | last text =>
      rw [← List.append_nil (render Slot.tag (last text))] at hstart
      exact tagFree_cons hstart hclean
  | part text slot rest => exact ⟨tagFree_cons hstart hclean.1, hclean.2⟩

theorem Cutting.IsOf.part_nil (h : cut.IsOf template) (slot : Slot) :
    (part [] slot cut).IsOf (slot.tag ++ template) := by
  refine ⟨by rw [h.eq]; rfl, fun other hin => ?_, h.clean⟩
  exact other.tag_ne_nil (List.infix_nil.mp hin)

/-- Every template is cut at its tags, from the left to the right. -/
theorem exists_cutting (template : List Char) : ∃ cut : Cutting, cut.IsOf template := by
  induction hlength : template.length using Nat.strong_induction_on generalizing template with
  | _ n ih =>
    subst hlength
    by_cases htag : ∃ slot : Slot, slot.tag <+: template
    · obtain ⟨slot, rest, rfl⟩ := htag
      have hshorter : rest.length < (slot.tag ++ rest).length := by
        have := List.length_pos_of_ne_nil slot.tag_ne_nil
        rw [List.length_append]
        omega
      obtain ⟨cut, hcut⟩ := ih _ hshorter rest rfl
      exact ⟨_, hcut.part_nil slot⟩
    · rw [not_exists] at htag
      cases template with
      | nil => exact ⟨.last [], rfl, fun slot hin => slot.tag_ne_nil (List.infix_nil.mp hin)⟩
      | cons c template =>
          obtain ⟨cut, hcut⟩ := ih _ (Nat.lt_succ_self _) template rfl
          exact ⟨_, hcut.cons htag⟩

/-- In a piece with a tag behind it no tag starts before that tag. -/
theorem TagFree.not_isPrefix (h : TagFree text) (hne : text ≠ []) (slot slot' : Slot)
    (after : List Char) : ¬slot.tag <+: text ++ (slot'.tag ++ after) := by
  intro hstarts
  rcases List.prefix_or_prefix_of_prefix hstarts (List.prefix_append text _) with hin | hin
  · exact h slot hin.isInfix
  · obtain ⟨right, htag⟩ := hin
    have hright : right <+: slot'.tag ++ after := by
      rwa [← htag, List.prefix_append_right_inj] at hstarts
    cases right with
    | nil => exact h slot ⟨[], [], by simpa using htag.symm⟩
    | cons d right =>
        -- the rest of the tag starts like the other tag
        have hd : d = '\x7b' := by
          have hhead := slot'.head?_tag
          obtain ⟨more, hmore⟩ := hright
          rw [← List.head?_append_of_ne_nil _ slot'.tag_ne_nil, ← hmore] at hhead
          exact Option.some.inj hhead
        obtain ⟨c, text, rfl⟩ := List.exists_cons_of_ne_nil hne
        refine slot.notMem_tag_tail ?_
        rw [← htag, ← hd]
        exact List.mem_append_right text List.mem_cons_self

theorem TagFree.of_cons (h : TagFree (c :: text)) : TagFree text :=
  fun slot hin => h slot (List.infix_cons hin)

/-- The first piece of a text and the tag behind it are determined. -/
theorem TagFree.append_inj (h : TagFree text) (h' : TagFree text') {after' : List Char}
    (heq : text ++ (slot.tag ++ after) = text' ++ (slot'.tag ++ after')) :
    text = text' ∧ slot = slot' ∧ after = after' := by
  induction text generalizing text' with
  | nil =>
      cases text' with
      | nil =>
          by_cases hslot : slot = slot'
          · subst hslot
            exact ⟨rfl, rfl, List.append_cancel_left heq⟩
          · have hstarts : slot.tag <+: slot'.tag ++ after' := ⟨after, heq⟩
            rcases List.prefix_or_prefix_of_prefix hstarts (List.prefix_append _ _) with hin | hin
            · exact absurd hin (Slot.not_tag_isPrefix hslot)
            · exact absurd hin (Slot.not_tag_isPrefix (Ne.symm hslot))
      | cons c text' =>
          exact absurd ⟨after, heq⟩ (h'.not_isPrefix (List.cons_ne_nil c text') slot slot' after')
  | cons c text ih =>
      cases text' with
      | nil =>
          exact absurd ⟨after', heq.symm⟩
            (h.not_isPrefix (List.cons_ne_nil c text) slot' slot after)
      | cons c' text' =>
          obtain ⟨rfl, htail⟩ := List.cons.inj heq
          obtain ⟨rfl, hslot, hafter⟩ := ih h.of_cons h'.of_cons htail
          exact ⟨rfl, hslot, hafter⟩

/-- A text has no more than one cutting. -/
theorem Cutting.Clean.render_inj (h : cut.Clean) (h' : cut'.Clean)
    (heq : cut.render Slot.tag = cut'.render Slot.tag) : cut = cut' := by
  have hfree {text text' : List Char} {slot : Slot} {rest : Cutting} (htext : TagFree text)
      (heq : text = text' ++ (slot.tag ++ rest.render Slot.tag)) : False :=
    htext slot ⟨text', rest.render Slot.tag, by rw [heq, List.append_assoc]⟩
  induction cut generalizing cut' with
  | last text =>
      cases cut' with
      | last text' => exact congrArg last heq
      | part text' slot' rest' => exact (hfree h heq).elim
  | part text slot rest ih =>
      cases cut' with
      | last text' => exact (hfree h' heq.symm).elim
      | part text' slot' rest' =>
          obtain ⟨rfl, rfl, hrest⟩ := h.1.append_inj h'.1 heq
          rw [ih h.2 h'.2 hrest]

theorem existsUnique_cutting (template : List Char) : ∃! cut : Cutting, cut.IsOf template := by
  obtain ⟨cut, hcut⟩ := exists_cutting template
  refine ⟨cut, hcut, fun cut' hcut' => ?_⟩
  exact hcut'.clean.render_inj hcut.clean (hcut'.eq.symm.trans hcut.eq)

theorem Cutting.render_append (content : Slot → List Char) (slot : Slot) (cut cut' : Cutting) :
    (cut.append slot cut').render content =
      cut.render content ++ (content slot ++ cut'.render content) := by
  induction cut with
  | last text => rfl
  | part text other rest ih =>
      rw [Cutting.append, render, render, ih, List.append_assoc, List.append_assoc]

theorem Cutting.Clean.append (h : cut.Clean) (h' : cut'.Clean) (slot : Slot) :
    (cut.append slot cut').Clean := by
  induction cut with
  | last text => exact ⟨h, h'⟩
  | part text other rest ih => exact ⟨h.1, ih h.2⟩

/-- Wherever a tag stands, the template is cut. -/
theorem Cutting.IsOf.exists_append (h : cut.IsOf (before ++ (slot.tag ++ after))) :
    ∃ first rest : Cutting, first.IsOf before ∧ rest.IsOf after ∧ cut = first.append slot rest := by
  obtain ⟨first, hfirst⟩ := exists_cutting before
  obtain ⟨rest, hrest⟩ := exists_cutting after
  refine ⟨first, rest, hfirst, hrest, h.clean.render_inj (hfirst.clean.append hrest.clean slot) ?_⟩
  rw [render_append, ← h.eq, ← hfirst.eq, ← hrest.eq]

/-! ## One replacement -/

/-- The needle does not stand in the text, and it does not reach over a border of it whatever
stands around it. -/
structure Apart (needle text : List Char) : Prop where
  absent : ¬needle <:+: text
  /-- The text starts with a character that the needle does not have inside. -/
  start : ∃ c, text.head? = some c ∧ c ∉ needle.tail
  /-- It does not end with a part of the needle. -/
  stop : ∀ left right, left ≠ [] → right ≠ [] → needle = left ++ right → ¬left <:+ text

theorem noneAcross_of_head {needle : List Char} (hhead : text.head? = some c)
    (hc : c ∉ needle.tail) (before after : List Char) :
    NoneAcross needle before (text ++ after) := by
  rintro left right hleft hright rfl - hstarts
  obtain ⟨d, left, rfl⟩ := List.exists_cons_of_ne_nil hleft
  obtain ⟨e, right, rfl⟩ := List.exists_cons_of_ne_nil hright
  obtain ⟨more, hmore⟩ := hstarts
  have hsame : (text ++ after).head? = some e := by rw [← hmore]; rfl
  rw [List.head?_append_of_ne_nil, hhead] at hsame
  · cases hsame
    exact hc (List.mem_append_right left List.mem_cons_self)
  · rintro rfl
    cases hhead

theorem Apart.replaceAll_append {needle : List Char} (h : Apart needle text) (hneedle : needle ≠ [])
    (new after : List Char) :
    replaceAll needle new (text ++ after) = text ++ replaceAll needle new after := by
  have hborder : NoneAcross needle text after :=
    fun left right hleft hright heq hsuffix _ => h.stop left right hleft hright heq hsuffix
  rw [hborder.replaceAll_append hneedle, replaceAll_of_not_isInfix h.absent]

/-- Replacing one tag puts a content in its slots. -/
theorem Cutting.Clean.replaceAll_render (h : cut.Clean) (slot : Slot)
    (content content' : Slot → List Char) (hslot : content slot = slot.tag)
    (hother : ∀ other ≠ slot, content' other = content other ∧ Apart slot.tag (content other)) :
    replaceAll slot.tag (content' slot) (cut.render content) = cut.render content' := by
  have hhead (other : Slot) : ∃ c, (content other).head? = some c ∧ c ∉ slot.tag.tail := by
    by_cases hsame : other = slot
    · rw [hsame, hslot]
      exact ⟨_, slot.head?_tag, slot.notMem_tag_tail⟩
    · exact (hother other hsame).2.start
  induction cut with
  | last text => exact replaceAll_of_not_isInfix (h slot)
  | part text other rest ih =>
      obtain ⟨c, hc, htail⟩ := hhead other
      have hborder := noneAcross_of_head hc htail text (rest.render content)
      rw [render, hborder.replaceAll_append slot.tag_ne_nil, replaceAll_of_not_isInfix (h.1 slot),
        render]
      by_cases hsame : other = slot
      · rw [hsame, hslot, replaceAll_append slot.tag_ne_nil, ih h.2]
      · obtain ⟨heq, hapart⟩ := hother other hsame
        rw [hapart.replaceAll_append slot.tag_ne_nil, ih h.2, heq]

/-! ## Bodies and other tags -/

/-- What a tag starts with has its brace. -/
theorem Slot.mem_of_tag_eq (hleft : left ≠ []) (h : slot.tag = left ++ right) : '\x7b' ∈ left := by
  obtain ⟨c, left, rfl⟩ := List.exists_cons_of_ne_nil hleft
  have hhead := slot.head?_tag
  rw [h] at hhead
  cases hhead
  exact List.mem_cons_self

theorem Slot.apart_tag (h : other ≠ slot) : Apart slot.tag other.tag := by
  obtain ⟨rest, hrest⟩ := List.head?_eq_some_iff.mp other.head?_tag
  have htail : '\x7b' ∉ rest := by
    have hnotMem := other.notMem_tag_tail
    rwa [hrest] at hnotMem
  refine ⟨fun hin => ?_, ⟨_, other.head?_tag, slot.notMem_tag_tail⟩, ?_⟩
  · rw [hrest] at hin
    rcases List.infix_cons_iff.mp hin with hstarts | hin
    · rw [← hrest] at hstarts
      exact not_tag_isPrefix h.symm hstarts
    · exact htail (hin.subset (List.mem_of_head? slot.head?_tag))
  · intro left right hleft _ heq hsuffix
    rw [hrest] at hsuffix
    rcases List.suffix_cons_iff.mp hsuffix with hsame | hsuffix
    · rw [← hrest] at hsame
      exact not_tag_isPrefix h ⟨right, by rw [← hsame, heq]⟩
    · exact htail (hsuffix.subset (mem_of_tag_eq hleft heq))

/-- What a value ends with is no part of what the tags start with, nor the other way round. -/
theorem apart_opening_of_valueEnd {last : List Char} (h : ValueEnd last) :
    ¬last ⊆ opening ∧ '\x7b' ∉ last := by
  cases h with
  | null => decide
  | trueWord => decide
  | falseWord => decide
  | digit hdigit =>
      have hopening : opening.all fun c => !c.isDigit := by rfl
      have hnone (c : Char) (hc : c ∈ opening) : ¬c.isDigit := by
        simpa using List.all_eq_true.mp hopening c hc
      refine ⟨fun hsub => hnone _ (hsub List.mem_cons_self) hdigit, fun hbrace => ?_⟩
      rw [← List.mem_singleton.mp hbrace] at hdigit
      exact absurd hdigit (by decide)
  | mark hmark => rcases hmark with rfl | rfl | rfl <;> decide

/-- The body of an object starts with a blank and ends like a value. -/
theorem apart_settingsBody {members : List (String × Json)} (h : members ≠ [])
    (hopening : ¬opening <:+: settingsBody (.object members)) (slot : Slot) :
    Apart slot.tag (settingsBody (.object members)) := by
  refine ⟨fun hin => hopening (slot.opening_prefix_tag.isInfix.trans hin), ⟨' ', ?_, ?_⟩, ?_⟩
  · rw [settingsBody_object h]
    rfl
  · cases slot <;> decide
  · intro left right hleft _ heq hsuffix
    have hstarts : left <+: slot.tag := ⟨right, heq.symm⟩
    rcases List.prefix_or_prefix_of_prefix hstarts slot.opening_prefix_tag with hin | hin
    · obtain ⟨last, hlast, hends⟩ : EndsAsValue (settingsBody (.object members)) := by
        rw [settingsBody_object h]
        exact (endsAsValue_membersText tableIndent 1 h).append_left tableIndent
      obtain ⟨hsub, hbrace⟩ := apart_opening_of_valueEnd hlast
      rcases List.suffix_or_suffix_of_suffix hsuffix hends with hshort | hlong
      · exact hbrace (hshort.subset (Slot.mem_of_tag_eq hleft heq))
      · exact hsub fun c hc => hin.subset (hlong.subset hc)
    · exact hopening (hin.isInfix.trans hsuffix.isInfix)

/-- A template is cut in just one way, wherever a tag stands in it, and filling it puts the bodies
and the trimmed configuration between its pieces. -/
theorem fill_eq_render {settings srgb : List (String × Json)} (hsettings : settings ≠ [])
    (hsrgb : srgb ≠ []) (hopening : ¬opening <:+: settingsBody (.object settings))
    (hopening' : ¬opening <:+: settingsBody (.object srgb)) (template config : List Char) :
    (∃! cut : Cutting, cut.IsOf template) ∧ ∀ cut : Cutting, cut.IsOf template →
      (∀ before slot after, template = before ++ (slot.tag ++ after) →
        ∃ first rest : Cutting, first.IsOf before ∧ rest.IsOf after ∧
          cut = first.append slot rest) ∧
      fill template (settingsBody (.object settings)) (settingsBody (.object srgb)) config =
        cut.render (Slot.content (settingsBody (.object settings)) (settingsBody (.object srgb))
          (trim config)) := by
  refine ⟨existsUnique_cutting template, fun cut hcut => ⟨?_, ?_⟩⟩
  · rintro before slot after rfl
    exact hcut.exists_append
  have hbody := apart_settingsBody hsettings hopening
  have hbody' := apart_settingsBody hsrgb hopening'
  generalize settingsBody (.object settings) = body at hbody ⊢
  generalize settingsBody (.object srgb) = body' at hbody' ⊢
  -- at each step the bodies put in before and the tags still to be filled are apart from the tag
  have hfirst : replaceAll settingsPlace body (cut.render Slot.tag) =
      cut.render (Slot.content body srgbPlace configPlace) := by
    refine hcut.clean.replaceAll_render .settings Slot.tag
      (Slot.content body srgbPlace configPlace) rfl fun other hother => ?_
    cases other with
    | settings => exact absurd rfl hother
    | srgb => exact ⟨rfl, Slot.apart_tag hother⟩
    | config => exact ⟨rfl, Slot.apart_tag hother⟩
  have hsecond : replaceAll srgbPlace body' (cut.render (Slot.content body srgbPlace configPlace)) =
      cut.render (Slot.content body body' configPlace) := by
    refine hcut.clean.replaceAll_render .srgb (Slot.content body srgbPlace configPlace)
      (Slot.content body body' configPlace) rfl fun other hother => ?_
    cases other with
    | settings => exact ⟨rfl, hbody .srgb⟩
    | srgb => exact absurd rfl hother
    | config => exact ⟨rfl, Slot.apart_tag hother⟩
  have hthird : replaceAll configPlace (trim config)
      (cut.render (Slot.content body body' configPlace)) =
        cut.render (Slot.content body body' (trim config)) := by
    refine hcut.clean.replaceAll_render .config (Slot.content body body' configPlace)
      (Slot.content body body' (trim config)) rfl fun other hother => ?_
    cases other with
    | settings => exact ⟨rfl, hbody .config⟩
    | srgb => exact ⟨rfl, hbody' .config⟩
    | config => exact absurd rfl hother
  rw [fill, hcut.eq, hfirst, hsecond, hthird]

/-- Two tags with nothing between them, and a configuration that looks like a tag. -/
theorem fill_eq_render_flags :
    let template := settingsPlace ++ (srgbPlace ++ '\n' :: configPlace)
    let body := settingsBody (.object [("a", .bool true)])
    let body' := settingsBody (.object [("a", .bool false)])
    ¬opening <:+: body ∧ ¬opening <:+: body' ∧
      fill template body body' (settingsPlace ++ ['\n']) =
        body ++ (body' ++ '\n' :: settingsPlace) := by
  have hbody (b : Bool) : ¬opening <:+: settingsBody (.object [("a", .bool b)]) := by
    rw [settingsBody_object (List.cons_ne_nil _ _)]
    cases b <;> decide
  have hcut : (Cutting.part [] .settings (.part [] .srgb (.part ['\n'] .config (.last [])))).IsOf
      (settingsPlace ++ (srgbPlace ++ '\n' :: configPlace)) := by
    refine ⟨rfl, ?_, ?_, ?_, ?_⟩
    all_goals
      intro slot
      cases slot <;> decide
  obtain ⟨-, hfill⟩ := fill_eq_render (List.cons_ne_nil _ _) (List.cons_ne_nil _ _) (hbody true)
    (hbody false) (settingsPlace ++ (srgbPlace ++ '\n' :: configPlace)) (settingsPlace ++ ['\n'])
  refine ⟨hbody true, hbody false, (hfill _ hcut).2.trans ?_⟩
  have htrim : trim (settingsPlace ++ ['\n']) = settingsPlace := by decide
  rw [htrim]
  simp [Cutting.render, Slot.content]

end Lexicolor.Readme
