/-!
# Decimal digits
-/

namespace Lexicolor.Text

def digitValue (c : Char) : Nat := c.toNat - '0'.toNat

/-- The value of a digit sequence. -/
def natValue (digits : List Char) : Nat := digits.foldl (fun n c => n * 10 + digitValue c) 0

/-- The number that a text of digits only spells. -/
def number? (cs : List Char) : Option Nat :=
  if cs.isEmpty || !cs.all Char.isDigit then none else some (natValue cs)

end Lexicolor.Text
