import Mathlib
import Lexicolor.Proofs.Clangd.ModifierSets

/-!
# The order of the sets of modifiers

The sets of numbers below `n` are in shortlex order: by size, and in
lexicographic order within a size. The loop for their number stays within the
machine words for all scopes that half of the words can count.
-/

namespace Lexicolor.Clangd

variable {n k count scopes : Nat} {set : List Nat} {l : List Nat}

/-! ## Members -/

theorem mem_modifierSets_iff :
    set ∈ modifierSets n ↔ set ≠ [] ∧ set.Pairwise (· < ·) ∧ ∀ i ∈ set, i < n := by
  refine ⟨of_mem_modifierSets, fun ⟨hne, hascends, hbound⟩ => ?_⟩
  have hsubset : set ⊆ List.range n := fun i hi => List.mem_range.mpr (hbound i hi)
  have hsub : set.Sublist (List.range n) :=
    List.sublist_of_subperm_of_pairwise (List.subperm_of_subset hascends.nodup hsubset)
      hascends List.pairwise_lt_range
  have hmem := (cons_modifierSets_perm n).mem_iff.mpr (List.mem_sublists'.mpr hsub)
  exact (List.mem_cons.mp hmem).resolve_left hne

theorem mem_choose_iff : set ∈ choose k l ↔ set.Sublist l ∧ set.length = k :=
  (choose_perm_sublistsLen k l).mem_iff.trans List.mem_sublistsLen

/-! ## Order -/

/-- The ways to choose from ascending numbers come in lexicographic order. -/
theorem pairwise_choose (h : l.Pairwise (· < ·)) (k : Nat) :
    (choose k l).Pairwise (List.Lex (· < ·)) := by
  induction l generalizing k with
  | nil => cases k <;> simp [choose]
  | cons x xs ih =>
      obtain ⟨hx, hxs⟩ := List.pairwise_cons.mp h
      cases k with
      | zero => simp [choose]
      | succ k =>
          rw [choose, List.pairwise_append]
          refine ⟨(ih hxs k).map _ fun _ _ hlex => .cons hlex, ih hxs (k + 1), ?_⟩
          -- the sets without the least number start with a larger one
          intro first hfirst second hsecond
          obtain ⟨rest, -, rfl⟩ := List.mem_map.mp hfirst
          obtain ⟨hsub, hlength⟩ := mem_choose_iff.mp hsecond
          obtain ⟨y, ys, rfl⟩ := List.exists_cons_of_length_eq_add_one hlength
          exact .rel (hx y (hsub.subset List.mem_cons_self))

theorem pairwise_modifierSets (n : Nat) :
    (modifierSets n).Pairwise (List.Shortlex (· < ·)) := by
  rw [modifierSets, List.pairwise_flatMap]
  refine ⟨fun k _ => ?_, List.pairwise_lt_range.imp fun hlt first hfirst second hsecond => ?_⟩
  · refine (pairwise_choose List.pairwise_lt_range (k + 1)).imp_of_mem ?_
    intro first second hfirst hsecond hlex
    have hlength := (mem_choose_iff.mp hfirst).2.trans (mem_choose_iff.mp hsecond).2.symm
    exact .of_lex hlength hlex
  · have hfirst := (mem_choose_iff.mp hfirst).2
    have hsecond := (mem_choose_iff.mp hsecond).2
    exact .of_length_lt (by omega)

/-! ## Machine words -/

/-- The loop for the least number of modifiers as it runs in machine words. A word cannot be
shifted by as many bits as it has, so a loop that comes that far has no result. -/
def leastCountInWords? (scopes : UInt64) (count : Nat) : Option Nat :=
  if count < 64 then
    if (1 <<< UInt64.ofNat count) - 1 < scopes then leastCountInWords? scopes (count + 1)
    else some count
  else none
termination_by 64 - count

theorem toNat_capacity (h : count < 64) :
    ((1 : UInt64) <<< UInt64.ofNat count - 1).toNat = 2 ^ count - 1 := by
  have hlt : 2 ^ count < 2 ^ 64 := Nat.pow_lt_pow_right (by decide) h
  have hshift : ((1 : UInt64) <<< UInt64.ofNat count).toNat = 2 ^ count := by
    have hcount : (UInt64.ofNat count).toNat = count :=
      UInt64.toNat_ofNat_of_lt' (Nat.lt_trans h (by decide))
    rw [UInt64.toNat_shiftLeft, hcount, Nat.mod_eq_of_lt h, UInt64.toNat_one, Nat.one_shiftLeft,
      Nat.mod_eq_of_lt hlt]
  have hle : (1 : UInt64) ≤ 1 <<< UInt64.ofNat count := by
    rw [UInt64.le_iff_toNat_le, hshift]
    exact Nat.one_le_two_pow
  rw [UInt64.toNat_sub_of_le _ _ hle, hshift]
  rfl

theorem le_leastCount_start (scopes count : Nat) : count ≤ leastCount scopes count := by
  fun_induction leastCount scopes count with
  | case1 count hlt ih => exact Nat.le_of_succ_le ih
  | case2 count hle => exact Nat.le_refl count

theorem leastCountInWords?_eq (scopes : UInt64) (count : Nat) :
    leastCountInWords? scopes count =
      if leastCount scopes.toNat count < 64 then some (leastCount scopes.toNat count)
      else none := by
  fun_induction leastCountInWords? scopes count with
  | case1 count hcount hlt ih =>
      rw [UInt64.lt_iff_toNat_lt, toNat_capacity hcount, ← Nat.one_shiftLeft] at hlt
      rw [leastCount, if_pos hlt, ih]
  | case2 count hcount hle =>
      rw [UInt64.lt_iff_toNat_lt, toNat_capacity hcount, ← Nat.one_shiftLeft] at hle
      rw [leastCount, if_neg hle, if_pos hcount]
  | case3 count hcount =>
      have hle := le_leastCount_start scopes.toNat count
      rw [if_neg (by omega)]

/-- In machine words the loop ends for all scopes that half of the words can count. -/
theorem leastCountInWords?_ofNat (h : scopes < 2 ^ 63) :
    leastCountInWords? (UInt64.ofNat scopes) 0 = some (leastCount scopes 0) := by
  have hscopes : (UInt64.ofNat scopes).toNat = scopes :=
    UInt64.toNat_ofNat_of_lt' (Nat.lt_trans h (by decide))
  have hle : leastCount scopes 0 ≤ 63 := leastCount_le_iff.mpr (Nat.le_sub_one_of_lt h)
  rw [leastCountInWords?_eq, hscopes, if_pos (Nat.lt_succ_of_le hle)]

theorem isLeast_leastCount (scopes : Nat) :
    IsLeast {count | scopes ≤ 2 ^ count - 1} (leastCount scopes 0) :=
  ⟨le_leastCount scopes 0, fun _ hcount => leastCount_le_iff.mpr hcount⟩

/-- The sets are all that there are, each once and in their order, and their least number is found
in machine words. -/
theorem modifierSets_enumerate (n scopes : Nat) (h : scopes < 2 ^ 63) :
    (∀ set, set ∈ modifierSets n ↔ set ≠ [] ∧ set.Pairwise (· < ·) ∧ ∀ i ∈ set, i < n) ∧
    (modifierSets n).Nodup ∧ (modifierSets n).Pairwise (List.Shortlex (· < ·)) ∧
    (modifierSets n).length = 2 ^ n - 1 ∧
    ∃ count, leastCountInWords? (UInt64.ofNat scopes) 0 = some count ∧
      IsLeast {count | scopes ≤ 2 ^ count - 1} count ∧
      modifierCount scopes = (if scopes ≤ 511 then .ok count
        else .error (.tooManyScopes scopes maxModifiers)) ∧
      (scopes ≤ 511 → scopes ≤ (modifierSets count).length) := by
  refine ⟨fun _ => mem_modifierSets_iff, nodup_modifierSets n, pairwise_modifierSets n,
    length_modifierSets n, leastCount scopes 0, leastCountInWords?_ofNat h,
    isLeast_leastCount scopes, ?_, ?_⟩
  · split
    next hle => exact modifierCount_of_le hle
    next hlt => exact modifierCount_of_lt (Nat.not_le.mp hlt)
  · intro _
    rw [length_modifierSets]
    exact le_leastCount scopes 0

/-- Of three modifiers there are seven sets, and with two there are fewer than four. -/
theorem modifierSets_enumerate_three : 4 < 2 ^ 63 ∧ [0, 2] ∈ modifierSets 3 ∧
    (modifierSets 3).length = 7 ∧ leastCountInWords? (UInt64.ofNat 4) 0 = some 3 := by
  have hscopes : 4 < 2 ^ 63 := by decide
  obtain ⟨hmem, -, -, hlength, count, hcount, hleast, -⟩ := modifierSets_enumerate 3 4 hscopes
  have hthree : IsLeast {count | 4 ≤ 2 ^ count - 1} 3 := by
    refine ⟨by decide, fun count henough => ?_⟩
    by_contra hlt
    have hpow : 2 ^ count ≤ 2 ^ 2 := Nat.pow_le_pow_right (by decide) (by omega)
    have : 4 ≤ 2 ^ count - 1 := henough
    omega
  rw [hleast.unique hthree] at hcount
  exact ⟨hscopes, (hmem _).mpr (by decide), hlength, hcount⟩

end Lexicolor.Clangd
