/-!
# Finding and replacing in texts

Texts are lists of characters. The needle of a search is never empty where it
is used; occurrences are found from left to right and do not overlap.
-/

namespace Lexicolor.Text

/-- What follows `word` at the start of the text. -/
def after? : (word cs : List Char) → Option (List Char)
  | [], cs => some cs
  | _ :: _, [] => none
  | w :: word, c :: cs => if w = c then after? word cs else none

theorem after?_eq_some_iff {word cs rest : List Char} :
    after? word cs = some rest ↔ cs = word ++ rest := by
  induction word generalizing cs with
  | nil => simp [after?, eq_comm]
  | cons w word ih =>
      cases cs with
      | nil => simp [after?]
      | cons c cs =>
          by_cases h : w = c
          · simp [after?, h, ih]
          · simp [after?, h, Ne.symm h]

/-- The text before and after the first occurrence of `needle`. -/
def cut? (needle : List Char) : List Char → Option (List Char × List Char)
  | [] => if needle.isEmpty then some ([], []) else none
  | c :: cs =>
      match after? needle (c :: cs) with
      | some rest => some ([], rest)
      | none => (cut? needle cs).map fun (before, rest) => (c :: before, rest)

theorem eq_append_of_cut? {needle cs before rest : List Char}
    (h : cut? needle cs = some (before, rest)) : cs = before ++ needle ++ rest := by
  induction cs generalizing before rest with
  | nil =>
      rw [cut?] at h
      split at h
      · rename_i hn
        simp only [Option.some.injEq, Prod.mk.injEq] at h
        simp [← h.1, ← h.2, List.isEmpty_iff.mp hn]
      · contradiction
  | cons c cs ih =>
      rw [cut?] at h
      split at h
      · rename_i rest' hrest
        simp only [Option.some.injEq, Prod.mk.injEq] at h
        rw [← h.1, ← h.2, after?_eq_some_iff.mp hrest, List.nil_append]
      · obtain ⟨⟨b, r⟩, hcut, heq⟩ := Option.map_eq_some_iff.mp h
        simp only [Prod.mk.injEq] at heq
        rw [← heq.1, ← heq.2, ih hcut]
        simp

theorem not_isInfix_of_cut? {needle cs before rest : List Char}
    (h : cut? needle cs = some (before, rest)) (hneedle : needle ≠ []) :
    ¬needle <:+: before := by
  induction cs generalizing before with
  | nil => simp [cut?, hneedle] at h
  | cons c cs ih =>
      rw [cut?] at h
      split at h
      next =>
        cases h
        simpa using hneedle
      next hafter =>
        obtain ⟨⟨found, rest'⟩, hcut, heq⟩ := Option.map_eq_some_iff.mp h
        cases heq
        rw [List.infix_cons_iff, not_or]
        refine ⟨?_, ih hcut⟩
        intro hprefix
        obtain ⟨more, hmore⟩ := hprefix
        have hcs := eq_append_of_cut? hcut
        have hfound : after? needle (c :: cs) = some (more ++ (needle ++ rest)) := by
          rw [after?_eq_some_iff, hcs, ← List.append_assoc, hmore]
          simp
        rw [hafter] at hfound
        cases hfound

/-- Some part of the text is `needle`. -/
def contains (needle cs : List Char) : Bool := (cut? needle cs).isSome

theorem contains_iff {needle cs : List Char} : contains needle cs ↔ needle <:+: cs := by
  constructor
  · intro h
    obtain ⟨⟨before, rest⟩, hcut⟩ := Option.isSome_iff_exists.mp h
    exact ⟨before, rest, (eq_append_of_cut? hcut).symm⟩
  · intro h
    induction cs with
    | nil => simp [contains, cut?, List.infix_nil.mp h]
    | cons c cs ih =>
        rw [contains, cut?]
        split
        · rfl
        · rename_i hafter
          rcases List.infix_cons_iff.mp h with hprefix | hinfix
          · obtain ⟨rest, heq⟩ := hprefix
            rw [after?_eq_some_iff.mpr heq.symm] at hafter
            contradiction
          · rw [Option.isSome_map]
            exact ih hinfix

/-- Every occurrence of `needle` replaced by `new`. -/
def replaceAll (needle new : List Char) : List Char → List Char
  | [] => []
  | c :: cs =>
      if needle.isPrefixOf (c :: cs) then
        new ++ replaceAll needle new (cs.drop (needle.length - 1))
      else c :: replaceAll needle new cs
termination_by cs => cs.length
decreasing_by all_goals simp only [List.length_drop, List.length_cons]; omega

/-- The parts between the occurrences of `sep`; one more than there are occurrences. -/
def splitOn (sep : Char) : List Char → List (List Char)
  | [] => [[]]
  | c :: cs =>
      if c = sep then [] :: splitOn sep cs
      else match splitOn sep cs with
        | [] => [[c]]
        | part :: parts => (c :: part) :: parts

/-- The part of the text before the first `sep`. -/
def before (sep : Char) (cs : List Char) : List Char := cs.takeWhile (· ≠ sep)

/-- The parts with `sep` between neighbours. -/
def join (sep : List Char) (parts : List (List Char)) : List Char := sep.intercalate parts

/-- The ASCII capitals as small letters, all else unchanged. -/
def asciiLower (cs : List Char) : List Char := cs.map Char.toLower

/-- Letters of identifiers: ASCII letters, digits and the underscore. -/
def isIdentChar (c : Char) : Bool := c.isAlphanum || c == '_'

end Lexicolor.Text
