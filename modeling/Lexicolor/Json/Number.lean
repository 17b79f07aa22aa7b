import Lexicolor.Decimal.Shortest
import Lexicolor.Text.Digits

/-!
# JSON numbers

A number is an integer of at most 64 bits or a finite double. A literal is read
as its leading digits, as many as fit 64 bits, scaled by one power of ten; a
double is written with the fewest digits that stand for it.
-/

namespace Lexicolor.Json

/-- Integers and finite doubles; a double is held as its bits, so zeros differ by sign. -/
inductive Number where
  | integer (n : Int)
  | double (bits : UInt64)
  deriving DecidableEq, Inhabited

/-- A number literal: its digits as written. -/
structure Numeral where
  negative : Bool
  whole : List Char
  fraction : Option (List Char)
  exponent : Option (Bool × List Char)

namespace Numeral

open Text

/-- Appends digits to `n` while the result fits 64 bits; also the digits left over. -/
def pushDigits (n : Nat) : List Char → Nat × List Char
  | [] => (n, [])
  | c :: cs =>
      let next := n * 10 + digitValue c
      if next < 1 <<< 64 then pushDigits next cs else (n, c :: cs)

/-- `10 ^ n` for `n ≤ 308`. -/
def powerOfTen (n : Nat) : Float := Float.ofScientific 1 false n

/-- Division by `10 ^ n`, in steps of `10 ^ 308`. -/
def scaleDown (f : Float) (n : Nat) : Float :=
  if n ≤ 308 then f / powerOfTen n
  else if f == 0 then f
  else scaleDown (f / powerOfTen 308) (n - 308)
termination_by n

/-- `significand * 10 ^ exponent`, unless it is too large for a double. -/
def scale? (significand : Nat) (exponent : Int) : Option Float :=
  let f := significand.toUInt64.toFloat
  if exponent < 0 then some (scaleDown f (-exponent).toNat)
  else if exponent ≤ 308 then
    let scaled := f * powerOfTen exponent.toNat
    if scaled.isInf then none else some scaled
  else if significand = 0 then some f
  else none

def ofFloat (negative : Bool) (f : Float) : Number :=
  .double (if negative then -f else f).toBits

/-- The number that a literal denotes; `none` when it is too large. -/
def toNumber? (n : Numeral) : Option Number :=
  let (significand, dropped) := pushDigits 0 n.whole
  match n.fraction, n.exponent with
  | none, none =>
      if !dropped.isEmpty then (scale? significand dropped.length).map (ofFloat n.negative)
      else if !n.negative then some (.integer significand)
      else if 0 < significand ∧ significand ≤ 1 <<< 63 then some (.integer (-significand))
      -- the negative zero, and what is below the signed integers
      else some (ofFloat true significand.toUInt64.toFloat)
  | fraction, exponent =>
      let digits := fraction.getD []
      let (significand, unused) := pushDigits significand digits
      let shift : Int := (dropped.length : Int) - (digits.length - unused.length : Nat)
      let power : Int := match exponent with
        | none => 0
        | some (true, ds) => -(natValue ds : Int)
        | some (false, ds) => natValue ds
      (scale? significand (shift + power)).map (ofFloat n.negative)

end Numeral

namespace Number

/-- Exponents from `plainFrom` up to below `plainTo` are written positionally. -/
structure Format where
  plainFrom : Int
  plainTo : Int

/-- Doubles from 1e-5 up to below 1e16 are written positionally, with at least one decimal. -/
def format : Format := ⟨-5, 16⟩

/-- `digits * 10 ^ exponent`, positionally or with a signed power of ten. -/
def Format.write (form : Format) (d : Decimal) : List Char :=
  let digits := Nat.toDigits 10 d.digits
  let power : Int := d.exponent + digits.length - 1
  if form.plainFrom ≤ power ∧ power < form.plainTo then
    if 0 ≤ d.exponent then
      digits ++ List.replicate d.exponent.toNat '0' ++ ['.', '0']
    else if 0 ≤ power then
      let point := (power + 1).toNat
      digits.take point ++ '.' :: digits.drop point
    else '0' :: '.' :: List.replicate (-power - 1).toNat '0' ++ digits
  else
    let mantissa := match digits with
      | [] => []
      | [c] => [c]
      | c :: cs => c :: '.' :: cs
    let sign := if power < 0 then '-' else '+'
    mantissa ++ 'e' :: sign :: Nat.toDigits 10 power.natAbs

/-- The text of a finite double. -/
def writeDouble (bits : UInt64) : List Char :=
  let magnitude := bits % (1 <<< 63)
  let text :=
    if magnitude = 0 then ['0', '.', '0']
    else format.write (Decimal.Binary.ofBits magnitude).shortest
  if bits = magnitude then text else '-' :: text

def writeInteger (n : Int) : List Char :=
  if n < 0 then '-' :: Nat.toDigits 10 n.natAbs else Nat.toDigits 10 n.natAbs

/-- The text of a number. -/
def write : Number → List Char
  | .integer n => writeInteger n
  | .double bits => writeDouble bits

end Number

end Lexicolor.Json
