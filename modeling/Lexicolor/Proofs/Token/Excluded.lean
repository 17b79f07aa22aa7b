import Mathlib
import Lexicolor.Proofs.Token.Comments
import Lexicolor.Token.Basic

/-!
# The excluded characters of a line

A mask has an entry for every character of its line. A character is excluded if
a comment, a literal or the target of an include directive holds it.
-/

namespace Lexicolor.Token

open Text

variable {inBlock : Bool} {line cs rest : List Char} {column n : Nat} {quote : Char}

/-! ## The sizes of the masks -/

@[simp] theorem length_commentMask (inBlock : Bool) (line : List Char) :
    (commentMask inBlock line).1.length = line.length := by
  fun_induction commentMask inBlock line <;> simp_all

theorem literalLength?_le (h : literalLength? quote cs = some n) : n ≤ cs.length := by
  fun_induction literalLength? quote cs generalizing n
  case case1 => cases h
  case case2 => cases h
  case case3 c cs ih =>
    obtain ⟨m, hm, rfl⟩ := Option.map_eq_some_iff.mp h
    exact Nat.add_le_add_right (ih hm) 2
  case case4 =>
    cases h
    exact Nat.succ_le_succ (Nat.zero_le _)
  case case5 ih =>
    obtain ⟨m, hm, rfl⟩ := Option.map_eq_some_iff.mp h
    exact Nat.succ_le_succ (ih hm)

@[simp] theorem length_literalMask (line : List Char) :
    (literalMask line).length = line.length := by
  fun_induction literalMask line
  case case1 => rfl
  case case2 c cs n hn ih =>
    have hle : n ≤ cs.length := by
      split at hn
      next => exact literalLength?_le hn
      next => cases hn
    simp only [List.length_append, List.length_cons, List.length_replicate, ih, List.length_drop]
    omega
  case case3 ih => simp [ih]

/-- What follows the head of an include directive ends the line. -/
theorem suffix_of_afterInclude? (h : afterInclude? line = some rest) : rest <:+ line := by
  obtain ⟨cs, hhash, hinclude⟩ := Option.bind_eq_some_iff.mp h
  have hword := after?_eq_some_iff.mp hinclude
  have hsign := after?_eq_some_iff.mp hhash
  calc rest <:+ dropBlanks cs := hword ▸ List.suffix_append _ _
    _ <:+ cs := List.dropWhile_suffix _
    _ <:+ dropBlanks line := hsign ▸ List.suffix_append _ _
    _ <:+ line := List.dropWhile_suffix _

theorem includeTarget?_le {start length : Nat} (h : includeTarget? line = some (start, length)) :
    start + length ≤ line.length := by
  obtain ⟨rest, hrest, h⟩ := Option.bind_eq_some_iff.mp h
  obtain ⟨⟨before, inside⟩, hopen, h⟩ := Option.bind_eq_some_iff.mp h
  obtain ⟨⟨target, after⟩, hclose, h⟩ := Option.bind_eq_some_iff.mp h
  have hle := (suffix_of_afterInclude? hrest).length_le
  have hopen := congrArg List.length (eq_append_of_cut? hopen)
  have hclose := congrArg List.length (eq_append_of_cut? hclose)
  simp only [List.length_append, List.length_singleton] at hopen hclose
  cases h
  omega

@[simp] theorem length_includeMask (line : List Char) :
    (includeMask line).length = line.length := by
  rw [includeMask]
  split
  next start length h =>
    have hle := includeTarget?_le h
    simp only [List.length_append, List.length_replicate]
    omega
  next => rw [List.length_replicate]

/-! ## Excluded characters -/

/-- A comment, a literal or the target of an include directive holds the character at the column;
`inBlock` tells whether a block comment is open before the line. -/
def Excluded (inBlock : Bool) (line : List Char) (column : Nat) : Prop :=
  (commentMask inBlock line).1[column]? = some true ∨ (literalMask line)[column]? = some true ∨
    (includeMask line)[column]? = some true

theorem getElem?_zipWith_or {mask mask' : Mask} (h : mask.length = mask'.length) (i : Nat) :
    (List.zipWith (· || ·) mask mask')[i]? = some true ↔
      mask[i]? = some true ∨ mask'[i]? = some true := by
  rw [List.getElem?_zipWith]
  by_cases hi : i < mask.length
  · have hi' : i < mask'.length := h ▸ hi
    simp [hi, hi']
  · have hi' : ¬i < mask'.length := h ▸ hi
    simp [hi, hi']

theorem excluded_fst (inBlock : Bool) (line : List Char) : (excluded inBlock line).1 =
    List.zipWith (· || ·) (commentMask inBlock line).1
      (List.zipWith (· || ·) (literalMask line) (includeMask line)) := by
  rw [← (describes_comments inBlock line).1.mask]
  rfl

@[simp] theorem excluded_snd (inBlock : Bool) (line : List Char) :
    (excluded inBlock line).2 = (commentMask inBlock line).2 :=
  (describes_comments inBlock line).2

theorem getElem?_excluded :
    (excluded inBlock line).1[column]? = some true ↔ Excluded inBlock line column := by
  have hlength : (literalMask line).length = (includeMask line).length := by simp
  rw [Excluded, ← getElem?_zipWith_or hlength, excluded_fst]
  exact getElem?_zipWith_or (by simp) column

/-- Whether a block comment is open after some lines. -/
def blockAfter (inBlock : Bool) (lines : List (List Char)) : Bool :=
  lines.foldl (fun inBlock line => (commentMask inBlock line).2) inBlock

theorem touches_iff {mask : Mask} {start length : Nat} : touches mask start length ↔
    ∃ i, start ≤ i ∧ i < start + length ∧ mask[i]? = some true := by
  rw [touches, List.any_eq_true]
  constructor
  · rintro ⟨marked, hmem, hmarked⟩
    obtain ⟨i, hi⟩ := List.mem_iff_getElem?.mp hmem
    rw [List.getElem?_take, List.getElem?_drop] at hi
    split at hi
    next hlt =>
      refine ⟨start + i, Nat.le_add_right .., Nat.add_lt_add_left hlt _, hi.trans ?_⟩
      exact congrArg some hmarked
    next => cases hi
  · rintro ⟨i, hle, hlt, hi⟩
    refine ⟨true, List.mem_iff_getElem?.mpr ⟨i - start, ?_⟩, rfl⟩
    rw [List.getElem?_take, List.getElem?_drop, if_pos (by omega), Nat.add_sub_cancel' hle, hi]

end Lexicolor.Token
