/-!
# Shortest decimals

A positive binary number `m * 2 ^ q` stands for all reals that round to it.
Its shortest decimal is the one with the fewest digits among them, and of those
the nearest; a tie goes to the even digit.
-/

namespace Lexicolor

/-- A decimal `digits * 10 ^ exponent`. -/
structure Decimal where
  digits : Nat
  exponent : Int
  deriving DecidableEq, Repr

namespace Decimal

/-- A finite positive double, `mantissa * 2 ^ exponent`. -/
structure Binary where
  mantissa : Nat
  exponent : Int
  /-- The next smaller double is nearer than the next larger one. -/
  tight : Bool

/-- The magnitude that the bits of a finite double stand for. -/
def Binary.ofBits (bits : UInt64) : Binary :=
  let n := bits.toNat
  let fraction : Nat := n % (1 <<< 52)
  let biased : Nat := (n >>> 52) % (1 <<< 11)
  if biased = 0 then ⟨fraction, -1074, false⟩
  else ⟨(1 <<< 52) + fraction, (biased : Int) - 1075, fraction = 0 && biased > 1⟩

/-- A quotient of natural numbers; the denominator is positive. -/
structure Ratio where
  num : Nat
  den : Nat

/-- `m * 2 ^ q`. -/
def Ratio.scaled (m : Nat) (q : Int) : Ratio :=
  if 0 ≤ q then ⟨m <<< q.toNat, 1⟩ else ⟨m, 1 <<< (-q).toNat⟩

/-- The ratio divided by `10 ^ k`. -/
def Ratio.shift (r : Ratio) (k : Int) : Ratio :=
  if 0 ≤ k then ⟨r.num, r.den * Nat.pow 10 k.toNat⟩ else ⟨r.num * Nat.pow 10 (-k).toNat, r.den⟩

/-- The largest `e` with `10 ^ e ≤ r`, for a positive `r`. -/
def Ratio.log10 (r : Ratio) : Int :=
  let guess : Int := ((Nat.toDigits 10 r.num).length : Int) - (Nat.toDigits 10 r.den).length
  let s := r.shift guess
  if s.den ≤ s.num then guess else guess - 1

/-- `d * 10 ^ k` rounds to the double; the ends of its interval belong to even mantissas. -/
def Binary.holds (b : Binary) (k : Int) (d : Nat) : Bool :=
  let low := (Ratio.scaled (4 * b.mantissa - if b.tight then 1 else 2) (b.exponent - 2)).shift k
  let high := (Ratio.scaled (4 * b.mantissa + 2) (b.exponent - 2)).shift k
  if b.mantissa % 2 = 0 then low.num ≤ d * low.den && d * high.den ≤ high.num
  else low.num < d * low.den && d * high.den < high.num

/-- Of the two neighbours of the double on the grid of multiples of `10 ^ k` that round to it,
the nearer. -/
def Binary.onGrid? (b : Binary) (k : Int) : Option Nat :=
  let value := (Ratio.scaled b.mantissa b.exponent).shift k
  let below := value.num / value.den
  let rest := value.num % value.den
  match b.holds k below, b.holds k (below + 1) with
  | true, true =>
      -- the nearer neighbour, and the even one of two that are equally near
      if 2 * rest < value.den then some below
      else if value.den < 2 * rest then some (below + 1)
      else some (if below % 2 = 0 then below else below + 1)
  | true, false => some below
  | false, true => some (below + 1)
  | false, false => none

/-- Trailing zeros moved into the exponent; `fuel` bounds their number. -/
def stripZeros : (fuel : Nat) → Decimal → Decimal
  | 0, d => d
  | fuel + 1, d =>
      if d.digits ≠ 0 ∧ d.digits % 10 = 0 then
        stripZeros fuel ⟨d.digits / 10, d.exponent + 1⟩
      else d

/-- The shortest decimal that rounds to the double. Seventeen digits always suffice. -/
def Binary.shortest (b : Binary) : Decimal :=
  let top := (Ratio.scaled b.mantissa b.exponent).log10
  let found := (List.range 17).findSome? fun (n : Nat) =>
    (b.onGrid? (top - n)).map fun d => Decimal.mk d (top - n)
  stripZeros 17 (found.getD ⟨0, 0⟩)

end Decimal

end Lexicolor
