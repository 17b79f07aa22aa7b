/-!
# Ranges of code points

Properties of characters as ascending lists of ranges, and mappings between
characters as runs: a run maps every `step`-th code point from `first` to `last`
by adding the same distance.
-/

namespace Lexicolor.Unicode

/-- Closed ranges of code points, ascending and disjoint. -/
abbrev Ranges := List (Nat × Nat)

/-- Some range holds `n`. -/
def Ranges.has (ranges : Ranges) (n : Nat) : Bool :=
  ranges.any fun (low, high) => low ≤ n && n ≤ high

/-- Code points `first`, `first + step`, … `last` map to `target`, `target + step`, …. -/
structure Run where
  first : Nat
  last : Nat
  step : Nat
  target : Nat

namespace Run

def covers (run : Run) (n : Nat) : Bool :=
  run.first ≤ n && n ≤ run.last && (n - run.first) % run.step == 0

def image (run : Run) (n : Nat) : Nat := run.target + (n - run.first)

/-- The code point that the run maps to `n`. -/
def preimage? (run : Run) (n : Nat) : Option Nat :=
  let source := run.first + (n - run.target)
  if run.target ≤ n && run.covers source then some source else none

/-- The image of `n` under the run that covers it; others stay. -/
def apply (runs : List Run) (n : Nat) : Nat :=
  match runs.find? (·.covers n) with
  | some run => run.image n
  | none => n

end Run

end Lexicolor.Unicode
