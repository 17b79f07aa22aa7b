/-!
# Hexadecimal digits

Reading digits of either case, writing small ones.
-/

namespace Lexicolor.Text

/-- The value of a digit. -/
def hexValue? (c : Char) : Option Nat :=
  if c.isDigit then some (c.toNat - '0'.toNat)
  else if 'a' ≤ c ∧ c ≤ 'f' then some (c.toNat - 'a'.toNat + 10)
  else if 'A' ≤ c ∧ c ≤ 'F' then some (c.toNat - 'A'.toNat + 10)
  else none

/-- The number that digits spell, appended to `n`. -/
def hexAppend? (n : Nat) : List Char → Option Nat
  | [] => some n
  | c :: cs => do hexAppend? (n * 16 + (← hexValue? c)) cs

/-- The number that one digit or more spell. -/
def hexNumber? (cs : List Char) : Option Nat :=
  if cs.isEmpty then none else hexAppend? 0 cs

/-- The last two digits of a number, in small letters. -/
def hexPair (n : Nat) : List Char := [Nat.digitChar (n / 16 % 16), Nat.digitChar (n % 16)]

end Lexicolor.Text
