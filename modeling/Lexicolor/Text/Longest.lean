import Lexicolor.Text.Utf8

/-!
# Longest first

Items in the order of the lengths of their texts in bytes. Where a shorter text
starts a longer one, the longer one comes first.
-/

namespace Lexicolor.Text

variable {α : Type} {text : α → List Char} {items : List α} {R : α → α → Prop} {a b : α}

/-- The items with the longest texts first; ties stay in order. -/
def longestFirst (text : α → List Char) (items : List α) : List α :=
  items.mergeSort fun a b => byteLength (text b) ≤ byteLength (text a)

@[simp] theorem mem_longestFirst : a ∈ longestFirst text items ↔ a ∈ items := List.mem_mergeSort

theorem pairwise_longestFirst (text : α → List Char) (items : List α) :
    (longestFirst text items).Pairwise fun a b => byteLength (text b) ≤ byteLength (text a) := by
  refine (List.pairwise_mergeSort ?_ ?_ items).imp fun hab => of_decide_eq_true hab
  · intro a b c hab hbc
    exact decide_eq_true (Nat.le_trans (of_decide_eq_true hbc) (of_decide_eq_true hab))
  · intro a b
    simp only [Bool.or_eq_true, decide_eq_true_eq]
    exact Nat.le_total _ _

/-- Of two items the one with the longer text comes first. -/
theorem rel_of_pairwise_longestFirst (h : (longestFirst text items).Pairwise R) (ha : a ∈ items)
    (hb : b ∈ items) (hlt : byteLength (text b) < byteLength (text a)) : R a b := by
  have hsorted := pairwise_longestFirst text items
  obtain ⟨before, after, heq⟩ := List.append_of_mem (mem_longestFirst.mpr ha)
  have hmem : b ∈ longestFirst text items := mem_longestFirst.mpr hb
  rw [heq] at h hsorted hmem
  rcases List.mem_append.mp hmem with hmem | hmem
  · have hle := (List.pairwise_append.mp hsorted).2.2 b hmem a List.mem_cons_self
    omega
  rcases List.mem_cons.mp hmem with rfl | hmem
  · exact absurd hlt (Nat.lt_irrefl _)
  · exact (List.pairwise_cons.mp (List.pairwise_append.mp h).2.1).1 b hmem

end Lexicolor.Text
