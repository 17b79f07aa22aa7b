import Mathlib
import Lexicolor.Clangd.Modifiers

/-!
# Sets of modifiers

The sets of numbers below `n` are, up to their order, the sublists of the list
of these numbers without the empty one. So there are `2 ^ n - 1` of them, and
the number of modifiers in use is the least one whose sets suffice.
-/

namespace Lexicolor.Clangd

variable {α : Type} {n k m scopes count : Nat} {set : List Nat}

theorem choose_perm_sublistsLen (k : Nat) (l : List α) : (choose k l).Perm (l.sublistsLen k) := by
  induction l generalizing k with
  | nil => cases k <;> simp [choose]
  | cons x xs ih =>
      cases k with
      | zero => simp [choose]
      | succ k =>
          rw [choose, List.sublistsLen_succ_cons]
          exact (((ih k).map _).append (ih (k + 1))).trans List.perm_append_comm

/-- With the empty set, the sets below `n` are all sublists of the numbers below `n`. -/
theorem cons_modifierSets_perm (n : Nat) :
    ([] :: modifierSets n).Perm (List.range n).sublists' := by
  have hall := List.range_bind_sublistsLen_perm (List.range n)
  rw [List.length_range, List.range_succ_eq_map, List.flatMap_cons, List.flatMap_map,
    List.sublistsLen_zero, List.singleton_append] at hall
  refine .trans (.cons _ ?_) hall
  exact .flatMap_left _ fun k _ => choose_perm_sublistsLen (k + 1) _

theorem length_modifierSets (n : Nat) : (modifierSets n).length = 2 ^ n - 1 := by
  have hlength := (cons_modifierSets_perm n).length_eq
  rw [List.length_cons, List.length_sublists', List.length_range] at hlength
  omega

theorem nodup_cons_modifierSets (n : Nat) : ([] :: modifierSets n).Nodup :=
  (cons_modifierSets_perm n).nodup_iff.mpr (List.nodup_sublists'.mpr List.nodup_range)

theorem nodup_modifierSets (n : Nat) : (modifierSets n).Nodup := (nodup_cons_modifierSets n).of_cons

/-- The sets are not empty, and their members ascend below `n`. -/
theorem of_mem_modifierSets (h : set ∈ modifierSets n) :
    set ≠ [] ∧ set.Pairwise (· < ·) ∧ ∀ i ∈ set, i < n := by
  have hsub : set.Sublist (List.range n) :=
    List.mem_sublists'.mp ((cons_modifierSets_perm n).mem_iff.mp (List.mem_cons_of_mem _ h))
  refine ⟨?_, List.pairwise_lt_range.sublist hsub, fun i hi => List.mem_range.mp (hsub.subset hi)⟩
  rintro rfl
  exact (List.nodup_cons.mp (nodup_cons_modifierSets n)).1 h

/-! ## The number of modifiers -/

theorem le_leastCount (scopes count : Nat) : scopes ≤ 2 ^ leastCount scopes count - 1 := by
  fun_induction leastCount scopes count with
  | case1 count hlt ih => exact ih
  | case2 count hle => rwa [Nat.one_shiftLeft, Nat.not_lt] at hle

theorem leastCount_le (hcount : count ≤ m) (hm : scopes ≤ 2 ^ m - 1) :
    leastCount scopes count ≤ m := by
  fun_induction leastCount scopes count with
  | case1 count hlt ih =>
      rw [Nat.one_shiftLeft] at hlt
      refine ih (Nat.lt_of_le_of_ne hcount ?_)
      rintro rfl
      omega
  | case2 count hle => exact hcount

/-- The numbers of modifiers that suffice are those from the least one on. -/
theorem leastCount_le_iff : leastCount scopes 0 ≤ m ↔ scopes ≤ 2 ^ m - 1 := by
  refine ⟨fun hle => ?_, leastCount_le (Nat.zero_le m)⟩
  have hpow := Nat.pow_le_pow_right (show 0 < 2 by decide) hle
  have hscopes := le_leastCount scopes 0
  omega

/-- Nine modifiers are enough for 511 scopes and no more. -/
theorem leastCount_le_maxModifiers_iff : leastCount scopes 0 ≤ maxModifiers ↔ scopes ≤ 511 :=
  leastCount_le_iff

theorem modifierCount_of_le (h : scopes ≤ 511) : modifierCount scopes = .ok (leastCount scopes 0) :=
  if_pos (leastCount_le_maxModifiers_iff.mpr h)

theorem modifierCount_of_lt (h : 511 < scopes) :
    modifierCount scopes = .error (.tooManyScopes scopes maxModifiers) :=
  if_neg (leastCount_le_maxModifiers_iff.not.mpr (Nat.not_le.mpr h))

end Lexicolor.Clangd
