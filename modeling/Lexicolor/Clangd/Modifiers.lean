import Lexicolor.Problem

/-!
# Sets of modifiers

A token carries nothing but modifiers, so every scope is expressed by a set of
them. The sets come by size, and in lexicographic order within a size.
-/

namespace Lexicolor.Clangd

/-- The modifiers in use are numbered from zero up to below this. -/
def maxModifiers : Nat := 9

/-- The ways to choose `k` members of a list, in lexicographic order. -/
def choose {α : Type} : (k : Nat) → List α → List (List α)
  | 0, _ => [[]]
  | _ + 1, [] => []
  | k + 1, x :: xs => (choose k xs).map (x :: ·) ++ choose (k + 1) xs

/-- The sets of numbers below `n`, without the empty one. -/
def modifierSets (n : Nat) : List (List Nat) :=
  (List.range n).flatMap fun k => choose (k + 1) (List.range n)

/-- The least number of modifiers, from `count` on, with as many sets as there are scopes. -/
def leastCount (scopes count : Nat) : Nat :=
  if (1 <<< count) - 1 < scopes then leastCount scopes (count + 1) else count
termination_by scopes - ((1 <<< count) - 1)
decreasing_by
  have hpos : 0 < 1 <<< count := by rw [Nat.one_shiftLeft]; exact Nat.two_pow_pos count
  rw [Nat.shiftLeft_succ]
  omega

/-- The number of modifiers that the scopes need. -/
def modifierCount (scopes : Nat) : Except Problem Nat :=
  let count := leastCount scopes 0
  if count ≤ maxModifiers then .ok count else .error (.tooManyScopes scopes maxModifiers)

/-- The name of a modifier in a configuration. -/
def modifierName (n : Nat) : String := s!"Custom{n}"

end Lexicolor.Clangd
