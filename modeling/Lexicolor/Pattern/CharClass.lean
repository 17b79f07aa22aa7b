import Lexicolor.Text.Blank
import Lexicolor.Unicode.Word
import Lexicolor.Unicode.Fold

/-!
# Character classes

A class is a set of characters, built from ranges and the classes of digits,
blanks and word characters.
-/

namespace Lexicolor

inductive CharClass where
  | nothing
  | range (low high : Char)
  | digit
  | blank
  | word
  /-- The characters not in the class. -/
  | negated (c : CharClass)
  /-- The characters that are, up to case, in the class. -/
  | anyCase (c : CharClass)
  | union (a b : CharClass)
  | inter (a b : CharClass)
  | diff (a b : CharClass)
  /-- The characters in exactly one of the two. -/
  | either (a b : CharClass)

namespace CharClass

/-- Membership in a class. -/
def holds : CharClass → Char → Bool
  | nothing, _ => false
  | range low high, c => low ≤ c && c ≤ high
  | digit, c => Unicode.isDigit c
  | blank, c => Text.isBlank c
  | word, c => Unicode.isWord c
  | negated a, c => !a.holds c
  | anyCase a, c => (Unicode.caseVariants c).any fun d => a.holds d
  | union a b, c => a.holds c || b.holds c
  | inter a b, c => a.holds c && b.holds c
  | diff a b, c => a.holds c && !b.holds c
  | either a b, c => a.holds c != b.holds c

def single (c : Char) : CharClass := range c c

@[simp] theorem holds_single (c d : Char) : (single c).holds d = decide (d = c) := by
  rw [Bool.eq_iff_iff]
  simp only [single, holds, Bool.and_eq_true, decide_eq_true_eq]
  constructor
  · rintro ⟨h₁, h₂⟩
    exact Char.le_antisymm h₂ h₁
  · rintro rfl
    exact ⟨Char.le_refl d, Char.le_refl d⟩

def unionAll (classes : List CharClass) : CharClass := classes.foldr union nothing

/-- The classes with a name of their own inside brackets. -/
def named? (name : String) : Option CharClass :=
  let digits := range '0' '9'
  let small := range 'a' 'z'
  let capital := range 'A' 'Z'
  match name with
  | "alnum" => some (unionAll [digits, capital, small])
  | "alpha" => some (unionAll [capital, small])
  | "ascii" => some (range '\x00' '\x7f')
  | "blank" => some (unionAll [single '\t', single ' '])
  | "cntrl" => some (unionAll [range '\x00' '\x1f', single '\x7f'])
  | "digit" => some digits
  | "graph" => some (range '!' '~')
  | "lower" => some small
  | "print" => some (range ' ' '~')
  | "punct" => some (unionAll [range '!' '/', range ':' '@', range '[' '\x60', range '\x7b' '~'])
  | "space" => some (unionAll [range '\t' '\r', single ' '])
  | "upper" => some capital
  | "word" => some (unionAll [digits, capital, small, single '_'])
  | "xdigit" => some (unionAll [digits, range 'A' 'F', range 'a' 'f'])
  | _ => none

end CharClass

end Lexicolor
