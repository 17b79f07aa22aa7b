import Mathlib
import Lexicolor.Proofs.Source.Scan
import Lexicolor.Source.Enumerators

/-!
# The body of the enumeration

The head of an enumeration is found where it is written, unless another one stands
before it: no head begins before a head and goes on into it. The body ends at the
first closing brace.
-/

namespace Lexicolor.Source

open Text

variable {cs rest body head type word : List Char}

/-! ## Heads -/

/-- The underlying type of an enumeration, if it has one, with the blanks around it. -/
inductive Underlying : List Char → Prop
  | none {blanks : List Char} (h : Blank blanks) : Underlying blanks
  | type {left right after type : List Char} (hleft : Blank left) (hright : Blank right)
      (hne : type ≠ []) (htype : ∀ c ∈ type, isIdentChar c || c == ':') (hafter : Blank after) :
      Underlying (left ++ ':' :: (right ++ (type ++ after)))

/-- What stands before the body of the enumeration. -/
inductive EnumHead : List Char → Prop
  | intro {left right type : List Char} (hleft : Blank left) (hneleft : left ≠ [])
      (hright : Blank right) (hneright : right ≠ []) (htype : Underlying type) :
      EnumHead ("enum".toList ++ (left ++ ("class".toList ++ (right ++
        ("EClassification".toList ++ type)))))

/-- An enumeration with the text up to the first closing brace. -/
def EnumBody (cs body : List Char) : Prop :=
  ∃ head rest, EnumHead head ∧ body ≠ [] ∧ '\x7d' ∉ body ∧
    cs = head ++ '\x7b' :: (body ++ '\x7d' :: rest)

theorem not_isBlank_of_typeChar {c : Char} (h : isIdentChar c || c == ':') : ¬isBlank c := by
  intro hblank
  rcases Bool.or_eq_true_iff.mp h with hident | hcolon
  · exact not_isIdentChar_of_isBlank hblank hident
  · cases eq_of_beq hcolon
    cases hblank

/-- A type ends before a mark, with or without blanks between the two. -/
theorem head_blank_append_type {blanks : List Char} {mark : Char} (hblanks : Blank blanks)
    (hmark : ¬(isIdentChar mark || mark == ':')) (rest : List Char) :
    ∀ c ∈ (blanks ++ mark :: rest).head?, ¬(isIdentChar c || c == ':') :=
  not_of_head?_append
    (fun c hc htypeChar => not_isBlank_of_typeChar htypeChar (hblanks c hc)) hmark rest

/-- Blanks before a type are dropped. -/
theorem dropBlanks_eq_type_append_iff (hne : type ≠ [])
    (htype : ∀ c ∈ type, isIdentChar c || c == ':') :
    dropBlanks cs = type ++ rest ↔ ∃ blanks, Blank blanks ∧ cs = blanks ++ (type ++ rest) := by
  obtain ⟨c, type, rfl⟩ := List.exists_cons_of_ne_nil hne
  exact dropBlanks_eq_cons_iff (not_isBlank_of_typeChar (htype c List.mem_cons_self))

theorem exists_underlying_of_afterType (h : afterType cs = '\x7b' :: rest) :
    ∃ type, Underlying type ∧ cs = type ++ '\x7b' :: rest := by
  have hblanks (h : dropBlanks cs = '\x7b' :: rest) :
      ∃ type, Underlying type ∧ cs = type ++ '\x7b' :: rest := by
    obtain ⟨blanks, hblanks, rfl⟩ := (dropBlanks_eq_cons_iff (by decide)).mp h
    exact ⟨blanks, .none hblanks, rfl⟩
  rw [afterType] at h
  split at h
  next => exact hblanks h
  next behind hcolon =>
    split at h
    next found more hfound =>
      obtain ⟨left, hleft, rfl⟩ := (next?_eq_some_iff (by decide)).mp hcolon
      obtain ⟨hne, htype, -, hdrop⟩ := some?_eq_some_iff.mp hfound
      obtain ⟨right, hright, rfl⟩ := (dropBlanks_eq_type_append_iff hne htype).mp hdrop
      obtain ⟨after, hafter, rfl⟩ := (dropBlanks_eq_cons_iff (by decide)).mp h
      exact ⟨_, .type hleft hright hne htype hafter, by simp⟩
    next => exact hblanks h

theorem afterType_append (h : Underlying type) (rest : List Char) :
    afterType (type ++ '\x7b' :: rest) = '\x7b' :: rest := by
  cases h with
  | none h =>
      have hdrop : dropBlanks (type ++ '\x7b' :: rest) = '\x7b' :: rest :=
        dropBlanks_append h (by decide) rest
      have hnone : next? [':'] (type ++ '\x7b' :: rest) = none := by
        rw [next?, hdrop]
        rfl
      rw [afterType, hnone, hdrop]
  | @type left right after type hleft hright hne htype hafter =>
      have hcolon : next? [':'] (left ++ ':' :: (right ++ (type ++ (after ++ '\x7b' :: rest)))) =
          some (right ++ (type ++ (after ++ '\x7b' :: rest))) :=
        (next?_eq_some_iff (by decide)).mpr ⟨left, hleft, rfl⟩
      have hhead : ∀ c ∈ (after ++ '\x7b' :: rest).head?, ¬(isIdentChar c || c == ':') :=
        head_blank_append_type hafter (by decide) rest
      have hfound := some?_eq_some_iff.mpr ⟨hne, htype, hhead, rfl⟩
      have hdrop : dropBlanks (right ++ (type ++ (after ++ '\x7b' :: rest))) =
          type ++ (after ++ '\x7b' :: rest) :=
        (dropBlanks_eq_type_append_iff hne htype).mpr ⟨right, hright, rfl⟩
      rw [List.append_assoc, List.cons_append, List.append_assoc, List.append_assoc, afterType,
        hcolon]
      simp only [hdrop, hfound]
      exact dropBlanks_append hafter (by decide) rest

theorem afterType_eq_iff : afterType cs = '\x7b' :: rest ↔
    ∃ type, Underlying type ∧ cs = type ++ '\x7b' :: rest := by
  constructor
  · exact exists_underlying_of_afterType
  · rintro ⟨type, htype, rfl⟩
    exact afterType_append htype rest

theorem blanks?_eq_some_iff : blanks? cs = some rest ↔ (∀ c ∈ rest.head?, ¬isBlank c) ∧
    ∃ blanks, Blank blanks ∧ blanks ≠ [] ∧ cs = blanks ++ rest := by
  simp only [blanks?, Option.map_eq_some_iff, Prod.exists, some?_eq_some_iff]
  constructor
  · rintro ⟨blanks, _, ⟨hne, hblanks, hhead, rfl⟩, rfl⟩
    exact ⟨hhead, blanks, hblanks, hne, rfl⟩
  · rintro ⟨hhead, blanks, hblanks, hne, rfl⟩
    exact ⟨blanks, rest, ⟨hne, hblanks, hhead, rfl⟩, rfl⟩

theorem enumBody?_eq_some_iff : enumBody? cs = some body ↔ EnumBody cs body := by
  simp only [enumBody?, bind, Option.bind_eq_some_iff, pure, Option.some.injEq,
    after?_eq_some_iff, blanks?_eq_some_iff, List.singleton_append, afterType_eq_iff]
  constructor
  · rintro ⟨_, rfl, _, ⟨-, left, hleft, hneleft, rfl⟩, _, rfl, _,
      ⟨-, right, hright, hneright, rfl⟩, _, rfl, _, ⟨type, htype, rfl⟩, ⟨_, _⟩, hbody, rest, rfl,
      rfl⟩
    obtain ⟨hne, hchars, -, rfl⟩ := some?_eq_some_iff.mp hbody
    exact ⟨_, rest, .intro hleft hneleft hright hneright htype, hne,
      fun hmem => by simpa using hchars _ hmem, by simp⟩
  · rintro ⟨_, rest, ⟨hleft, hneleft, hright, hneright, htype⟩, hne, hbody, rfl⟩
    have hfound : some? (· ≠ '\x7d') (body ++ '\x7d' :: rest) = some (body, '\x7d' :: rest) :=
      some?_eq_some_iff.mpr ⟨hne, decide_ne_of_notMem hbody, by simp, rfl⟩
    simp only [List.append_assoc]
    exact ⟨_, rfl, _, ⟨by simp [isBlank], _, hleft, hneleft, rfl⟩, _, rfl, _,
      ⟨by simp [isBlank], _, hright, hneright, rfl⟩, _, rfl, _, ⟨_, htype, rfl⟩, _, hfound, rest,
      rfl, rfl⟩

/-- The first word of a head does not stand in the type of another one, since no word follows a
type. -/
theorem not_suffix_type {left word more : List Char} (htype : Underlying type) (hleft : Blank left)
    (hneleft : left ≠ []) (hsuffix : 'e' :: word <:+ type ++ ['\x7b'])
    (heq : 'e' :: word ++ more = "enum".toList ++ (left ++ 'c' :: rest)) : False := by
  have hnot {blanks : List Char} (hblanks : Blank blanks) : 'e' ∉ blanks :=
    hblanks.notMem (by decide)
  cases htype with
  | none h => exact absurd (hsuffix.mem List.mem_cons_self) (by simpa using hnot h)
  | @type before right after type hbefore hright hne htype hafter =>
      have hlater : 'e' :: word <:+ (before ++ ':' :: right) ++ (type ++ (after ++ ['\x7b'])) := by
        simpa using hsuffix
      obtain ⟨start, hstart⟩ :=
        suffix_of_suffix_append hlater (by simp [hnot hbefore, hnot hright])
      rcases List.append_eq_append_iff.mp hstart with ⟨name, rfl, hword⟩ | ⟨blanks, -, hblanks⟩
      · -- the name is the word, but a word follows the one and the body the other
        rw [hword, List.append_assoc, List.append_assoc, List.singleton_append] at heq
        obtain ⟨b, left, rfl⟩ := List.exists_cons_of_ne_nil hneleft
        have hb : ¬(isIdentChar b || b == ':') := fun htypeChar =>
          not_isBlank_of_typeChar htypeChar (hleft b List.mem_cons_self)
        have hname : (name ++ (after ++ '\x7b' :: more)).dropWhile
            (fun c => isIdentChar c || c == ':') = after ++ '\x7b' :: more :=
          dropWhile_append_of_head (fun c hc => htype c (List.mem_append_right _ hc))
            (head_blank_append_type hafter (by decide) more)
        have henum : ("enum".toList ++ (b :: left ++ 'c' :: rest)).dropWhile
            (fun c => isIdentChar c || c == ':') = b :: left ++ 'c' :: rest :=
          dropWhile_append_of_head (by simp [isIdentChar]) (by simpa using hb)
        have hmarks : '\x7b' :: more = 'c' :: rest := by
          rw [← dropBlanks_append hafter (by decide) more, ← hname, heq, henum,
            dropBlanks_append hleft (by decide)]
        exact absurd (List.cons.inj hmarks).1 (by decide)
      · have hmem : 'e' ∈ after ++ ['\x7b'] := by simp [hblanks]
        exact absurd hmem (by simpa using hnot hafter)

/-- No head begins before a head and goes on into it. -/
theorem prefix_of_head_append {head' before rest' : List Char} (hhead : EnumHead head)
    (hhead' : EnumHead head') (hne : before ≠ [])
    (heq : head' ++ '\x7b' :: rest' = before ++ (head ++ rest)) :
    head' ++ ['\x7b'] <+: before := by
  have happend : (head' ++ ['\x7b']) ++ rest' = before ++ (head ++ rest) := by simpa using heq
  rcases List.append_eq_append_iff.mp happend with ⟨more, rfl, -⟩ | ⟨part, hpart, hrest⟩
  · exact List.prefix_append _ _
  · by_cases hnil : part = []
    · simp [hpart, hnil]
    · exfalso
      obtain ⟨c, word, rfl⟩ := List.exists_cons_of_ne_nil hnil
      obtain ⟨d, before, rfl⟩ := List.exists_cons_of_ne_nil hne
      cases hhead with
      | @intro left right type hleft hneleft _ _ _ =>
      cases hhead' with
      | @intro left' right' type' hleft' _ hright' _ htype' =>
      obtain rfl : 'e' = c := (List.cons.inj hrest).1
      have hnot {blanks : List Char} (hblanks : Blank blanks) : 'e' ∉ blanks :=
        hblanks.notMem (by decide)
      -- no letter e stands between the first one and the type
      have hword : 'e' :: word <:+ "num".toList ++ (left' ++ ("class".toList ++ (right' ++
          "EClassification".toList))) ++ (type' ++ ['\x7b']) :=
        ⟨before, by
          rw [show "enum".toList = 'e' :: "num".toList by simp] at hpart
          simpa using (List.cons.inj hpart).2.symm⟩
      have hnext : 'e' :: word ++ rest' = "enum".toList ++ (left ++ 'c' :: ("lass".toList ++
          (right ++ ("EClassification".toList ++ (type ++ rest))))) := by
        rw [← hrest]
        simp only [List.append_assoc]
        rfl
      refine not_suffix_type htype' hleft hneleft (suffix_of_suffix_append hword ?_) hnext
      simp [hnot hleft', hnot hright']

theorem exists_takeWhile_append_brace (body after : List Char) : ∃ more,
    body ++ '\x7d' :: after = body.takeWhile (· ≠ '\x7d') ++ '\x7d' :: more := by
  induction body with
  | nil => exact ⟨after, rfl⟩
  | cons c body ih =>
      by_cases hc : c = '\x7d'
      · exact ⟨body ++ '\x7d' :: after, by simp [hc]⟩
      · obtain ⟨more, heq⟩ := ih
        exact ⟨more, by simp [hc, heq]⟩

/-- The first enumeration with a body is this one, if there is no head in the text before it. -/
theorem first?_enumBody? {before after : List Char} (hhead : EnumHead head)
    (hbefore : ∀ head', EnumHead head' → ¬head' ++ ['\x7b'] <:+: before)
    (hne : body.takeWhile (· ≠ '\x7d') ≠ []) :
    first? enumBody? (before ++ (head ++ '\x7b' :: (body ++ '\x7d' :: after))) =
      some (body.takeWhile (· ≠ '\x7d')) := by
  have hbody : EnumBody (head ++ '\x7b' :: (body ++ '\x7d' :: after))
      (body.takeWhile (· ≠ '\x7d')) := by
    obtain ⟨more, heq⟩ := exists_takeWhile_append_brace body after
    exact ⟨head, more, hhead, hne, fun hmem => by simpa using List.mem_takeWhile_imp hmem,
      by rw [heq]⟩
  rw [first?_eq_some_iff enumBody?_eq_some_iff]
  refine ⟨before, _, ⟨rfl, ⟨_, hbody⟩, fun before' after' heq hafter => ?_⟩, hbody⟩
  obtain ⟨_, head', rest', hhead', -, -, rfl⟩ := hafter
  rcases List.append_eq_append_iff.mp heq with ⟨more, rfl, -⟩ | ⟨more, rfl, hrest⟩
  · simp
  · by_cases hmore : more = []
    · simp [hmore]
    · have hstart := prefix_of_head_append hhead hhead' hmore hrest
      exact absurd (hstart.isInfix.trans (List.suffix_append before' more).isInfix)
        (hbefore head' hhead')

end Lexicolor.Source
