import Mathlib
import Lexicolor.Clangd.Config
import Lexicolor.Proofs.Text.Search

/-!
# Slots of a template

Two lines make a slot if the first has nothing but blanks before its key and the
second has its key and a tag somewhere. The search for a slot finds what stands
before the first places of the keys, and the first tag.
-/

namespace Lexicolor.Clangd

open Text

variable {c : Char} {cs line next tag before after : List Char} {slot : Slot}

/-! ## Tags -/

/-- A hash, blanks and a tag, which is not part of a longer one. -/
structure StartsTag (cs tag : List Char) : Prop where
  eq : ∃ blanks rest, cs = '#' :: (blanks ++ (tag ++ rest)) ∧ (∀ c ∈ blanks, isBlank c) ∧
    ∀ c ∈ rest.head?, ¬isTagChar c
  ne_nil : tag ≠ []
  tagChars : ∀ c ∈ tag, isTagChar c

/-- The tag is the first of the line. -/
def HasTag (line tag : List Char) : Prop :=
  ∃ before after, FirstAt (fun cs => ∃ tag, StartsTag cs tag) line before after ∧
    StartsTag after tag

theorem hasTag_of_starts (h : ∃ found, StartsTag cs found) : HasTag cs tag ↔ StartsTag cs tag := by
  constructor
  · intro hfound
    obtain ⟨before, after, hfirst, htag⟩ := hfound
    rwa [← ((firstAt_of_holds h).mp hfirst).2]
  · intro htag
    exact ⟨[], cs, (firstAt_of_holds h).mpr ⟨rfl, rfl⟩, htag⟩

theorem hasTag_cons_of_not (h : ¬∃ found, StartsTag (c :: cs) found) :
    HasTag (c :: cs) tag ↔ HasTag cs tag := by
  constructor
  · intro hfound
    obtain ⟨before, after, hfirst, htag⟩ := hfound
    obtain ⟨before', -, hfirst'⟩ := (firstAt_cons_of_not h).mp hfirst
    exact ⟨before', after, hfirst', htag⟩
  · intro hfound
    obtain ⟨before, after, hfirst, htag⟩ := hfound
    exact ⟨c :: before, after, (firstAt_cons_of_not h).mpr ⟨before, rfl, hfirst⟩, htag⟩

theorem not_isBlank_of_isTagChar (h : isTagChar c) : ¬isBlank c := by
  simp only [isTagChar, isIdentChar, Char.isAlphanum, Char.isAlpha, Char.isUpper, Char.isLower,
    Char.isDigit, Bool.or_eq_true, Bool.and_eq_true, decide_eq_true_eq, beq_iff_eq,
    UInt32.le_iff_toNat_le, Char.ext_iff, ← UInt32.toNat_inj] at h
  simp only [isBlank, Bool.or_eq_true, Bool.and_eq_true, decide_eq_true_eq, beq_iff_eq]
  simp only [Char.isValue, Char.reduceVal, UInt32.reduceToNat, Char.toNat_val] at h
  omega

theorem startsTag_iff : StartsTag (c :: cs) tag ↔
    c = '#' ∧ tag = (dropBlanks cs).takeWhile isTagChar ∧ tag ≠ [] := by
  constructor
  · intro h
    obtain ⟨blanks, rest, heq, hblanks, hrest⟩ := h.eq
    obtain ⟨d, tag', rfl⟩ := List.exists_cons_of_ne_nil h.ne_nil
    have hd := h.tagChars d List.mem_cons_self
    obtain ⟨rfl, rfl⟩ := List.cons.inj heq
    have hnil : rest.takeWhile isTagChar = [] := by
      cases rest with
      | nil => rfl
      | cons e rest => exact List.takeWhile_cons_of_neg (hrest e rfl)
    refine ⟨rfl, ?_, h.ne_nil⟩
    rw [dropBlanks, List.dropWhile_append_of_pos hblanks, List.cons_append,
      List.dropWhile_cons_of_neg (not_isBlank_of_isTagChar hd), ← List.cons_append,
      List.takeWhile_append_of_pos h.tagChars, hnil, List.append_nil]
  · intro h
    obtain ⟨rfl, htag, hne⟩ := h
    refine ⟨⟨cs.takeWhile isBlank, (dropBlanks cs).dropWhile isTagChar, ?_, ?_, ?_⟩, hne, ?_⟩
    · rw [htag, List.takeWhile_append_dropWhile, dropBlanks, List.takeWhile_append_dropWhile]
    · intro d hd
      exact List.mem_takeWhile_imp hd
    · intro d hd
      have hnot := List.head?_dropWhile_not isTagChar (dropBlanks cs)
      rw [Option.mem_def.mp hd] at hnot
      simpa using hnot
    · intro d hd
      rw [htag] at hd
      exact List.mem_takeWhile_imp hd

/-- A tag is the first one if no hash stands before it. -/
theorem hasTag_of_notMem (h : '#' ∉ before) (htag : StartsTag after tag) :
    HasTag (before ++ after) tag := by
  induction before with
  | nil => exact (hasTag_of_starts ⟨tag, htag⟩).mpr htag
  | cons c before ih =>
      rw [List.mem_cons, not_or] at h
      have hnot : ¬∃ found, StartsTag (c :: (before ++ after)) found := by
        intro hstarts
        obtain ⟨found, hfound⟩ := hstarts
        exact h.1 (startsTag_iff.mp hfound).1.symm
      exact (hasTag_cons_of_not hnot).mpr (ih h.2)

theorem tag?_eq_some_iff : tag? line = some tag ↔ HasTag line tag := by
  induction line with
  | nil =>
      constructor
      · intro h
        cases h
      · intro h
        obtain ⟨before, after, hfirst, htag⟩ := h
        obtain ⟨blanks, rest, heq, -⟩ := htag.eq
        have hnil := (List.append_eq_nil_iff.mp hfirst.eq.symm).2
        rw [heq] at hnil
        cases hnil
  | cons c cs ih =>
      rw [tag?]
      -- a tag that starts here comes before any further on
      by_cases hstarts : ∃ found, StartsTag (c :: cs) found
      · rw [hasTag_of_starts hstarts, startsTag_iff]
        obtain ⟨_, hfound⟩ := hstarts
        obtain ⟨rfl, rfl, hne⟩ := startsTag_iff.mp hfound
        rw [if_pos ⟨rfl, by simpa using hne⟩]
        simp only [Option.some.injEq, true_and]
        constructor
        · intro heq
          exact ⟨heq.symm, heq ▸ hne⟩
        · intro h
          exact h.1.symm
      · rw [hasTag_cons_of_not hstarts, ← ih, if_neg]
        intro h
        exact hstarts ⟨_, startsTag_iff.mpr ⟨h.1, rfl, by simpa using h.2⟩⟩

/-! ## Slots -/

/-- Two lines make a slot: the first has a key behind nothing but blanks, the second has a key and
a tag. -/
structure IsSlot (line next : List Char) (slot : Slot) : Prop where
  regexKey : ∃ rest, line = slot.regexIndent ++ (regexKey ++ rest)
  blank : ∀ c ∈ slot.regexIndent, isBlank c
  /-- The indent of the second line ends at the first place of its key. -/
  addKey : ∃ after, FirstAt (addKey <+: ·) next slot.addIndent after
  tag : HasTag next slot.tag

/-- The scope that a slot asks for. -/
def Slot.scope (slot : Slot) : String := String.ofList (hyphenated slot.tag)

/-- A key that begins with no blank stands at its first place behind blanks. -/
theorem firstAt_of_blank {key : List Char} (hc : ¬isBlank c) (h : ∀ d ∈ before, isBlank d)
    (rest : List Char) :
    FirstAt (c :: key <+: ·) (before ++ (c :: key ++ rest)) before (c :: key ++ rest) where
  eq := rfl
  holds := List.prefix_append _ _
  first before' after' heq hafter := by
    obtain ⟨rest', rfl⟩ := hafter
    obtain ⟨more, rfl, -⟩ | ⟨more, rfl, hkey⟩ := List.append_eq_append_iff.mp heq
    · simp
    · cases more with
      | nil => simp
      | cons d more =>
          -- the first character of the earlier key would be one of the blanks
          obtain ⟨rfl, -⟩ := List.cons.inj hkey
          exact absurd (h c (by simp)) hc

theorem firstAt_regexKey (h : ∀ c ∈ before, isBlank c) (rest : List Char) :
    FirstAt (regexKey <+: ·) (before ++ (regexKey ++ rest)) before (regexKey ++ rest) :=
  firstAt_of_blank (show ¬isBlank '-' by decide) h rest

theorem slot?_eq_some_iff : slot? line next = some slot ↔ IsSlot line next slot := by
  simp only [slot?, guard, Option.bind_eq_bind, Option.bind_eq_some_iff, Prod.exists,
    Option.pure_def, Option.failure_eq_none, Option.ite_none_right_eq_some, Option.some.injEq,
    cut?_eq_some_iff, tag?_eq_some_iff]
  constructor
  · intro h
    obtain ⟨regexIndent, rest, hregex, -, ⟨hblank, -⟩, tag, htag, addIndent, rest', hadd, rfl⟩ := h
    exact ⟨⟨rest, hregex.eq⟩, List.all_eq_true.mp hblank, ⟨_, hadd⟩, htag⟩
  · intro h
    obtain ⟨rest, heq⟩ := h.regexKey
    obtain ⟨after, hadd⟩ := h.addKey
    obtain ⟨rest', rfl⟩ := hadd.holds
    exact ⟨slot.regexIndent, rest, heq ▸ firstAt_regexKey h.blank rest, (),
      ⟨List.all_eq_true.mpr h.blank, trivial⟩, slot.tag, h.tag, slot.addIndent, rest', hadd, rfl⟩

theorem IsSlot.unique {slot' : Slot} (h : IsSlot line next slot) (h' : IsSlot line next slot') :
    slot = slot' :=
  Option.some.inj ((slot?_eq_some_iff.mpr h).symm.trans (slot?_eq_some_iff.mpr h'))

theorem not_isSlot_of_notMem (h : '-' ∉ line) : ¬IsSlot line next slot := by
  intro hslot
  obtain ⟨rest, heq⟩ := hslot.regexKey
  exact h (heq ▸ List.mem_append_right _ (List.mem_append_left _ (by decide)))

/-- A slot is cut out of its two lines. -/
theorem IsSlot.notMem (h : IsSlot line next slot) (hline : c ∉ line) (hnext : c ∉ next) :
    c ∉ slot.regexIndent ∧ c ∉ slot.addIndent ∧ c ∉ slot.tag := by
  obtain ⟨rest, hregex⟩ := h.regexKey
  obtain ⟨after, hadd⟩ := h.addKey
  obtain ⟨before, marked, hfirst, hstarts⟩ := h.tag
  obtain ⟨blanks, rest', htag, -⟩ := hstarts.eq
  refine ⟨fun hc => hline ?_, fun hc => hnext ?_, fun hc => hnext ?_⟩
  · rw [hregex]
    exact List.mem_append_left _ hc
  · rw [hadd.eq]
    exact List.mem_append_left _ hc
  · rw [hfirst.eq, htag]
    simp [hc]

end Lexicolor.Clangd
