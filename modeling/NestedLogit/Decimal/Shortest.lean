import NestedLogit.Decimal.Binary

/-!
# Decimal digits of a double

Two choices of digits for a positive double: the fewest that read back as the same double, and a
given number of significant digits. Both look at the grid of decimals with a given number of digits
and at the two neighbours of the double on it.
-/

namespace NestedLogit.Decimal

/-- The decimal number `digits * 10 ^ exponent`. -/
structure Digits where
  digits : Nat
  exponent : Int
  deriving Repr

/-- How to choose between two neighbours that are equally near. -/
inductive Tie where
  | up
  | even
  deriving DecidableEq, Repr

/-- The number of decimal digits of a whole number. -/
def digitCount (n : Nat) : Nat :=
  (Nat.toDigits 10 n).length

/-- The number of digits before the point of a positive fraction, or, if it is less than one, minus
the number of zeros that follow the point. -/
def magnitude (f : Fraction) : Int :=
  let whole := f.floor
  if 0 < whole then digitCount whole
  else 1 - (digitCount (f.denominator / f.numerator) : Int)

/-- The fraction `mantissa * 2 ^ exponent`. -/
def ofBinary (mantissa : Nat) (exponent : Int) : Fraction :=
  (Fraction.mk mantissa 1).scale 2 exponent

/-- The numbers that read as the same double: from `low` to `high`, with the ends if `closed`. -/
structure RoundingInterval where
  low : Fraction
  high : Fraction
  closed : Bool

/-- The interval of a double. Below a power of two, doubles lie twice as close. -/
def roundingInterval (mantissa : Nat) (exponent : Int) : RoundingInterval where
  low :=
    if mantissa = Nat.pow 2 52 && minExponent < exponent then
      ofBinary (4 * mantissa - 1) (exponent - 2)
    else ofBinary (4 * mantissa - 2) (exponent - 2)
  high := ofBinary (4 * mantissa + 2) (exponent - 2)
  closed := mantissa % 2 = 0

/-- Whether a fraction reads as the double of an interval. -/
def RoundingInterval.contains (i : RoundingInterval) (f : Fraction) : Bool :=
  if i.closed then i.low.le f && f.le i.high else i.low.lt f && f.lt i.high

/-- The better neighbour of a fraction on the grid of multiples of a power of ten, among those that
an interval contains. -/
def neighbour? (tie : Tie) (i : RoundingInterval) (f : Fraction) (exponent : Int) : Option Digits :=
  let scaled := f.scale 10 (-exponent)
  let below := scaled.floor
  let reads (d : Nat) : Bool := i.contains ((Fraction.mk d 1).scale 10 exponent)
  let twice := 2 * (scaled.numerator % scaled.denominator)
  let nearBelow :=
    twice < scaled.denominator || twice == scaled.denominator && tie == .even && below % 2 == 0
  match reads below && 0 < below, reads (below + 1) with
  | true, true => some ⟨if nearBelow then below else below + 1, exponent⟩
  | true, false => some ⟨below, exponent⟩
  | false, true => some ⟨below + 1, exponent⟩
  | false, false => none

/-- Drops zeros at the end of the digits. -/
def dropZeros : Nat → Digits → Digits
  | 0, d => d
  | fuel + 1, d =>
    if d.digits % 10 = 0 && 0 < d.digits then dropZeros fuel ⟨d.digits / 10, d.exponent + 1⟩ else d

/-- The fewest digits that read back as a positive double; of several, the nearest. Seventeen always
do. -/
def shortest (tie : Tie) (mantissa : Nat) (exponent : Int) : Digits :=
  let f := ofBinary mantissa exponent
  let i := roundingInterval mantissa exponent
  let top := magnitude f
  let found := (List.range 17).findSome? fun (k : Nat) => neighbour? tie i f (top - (k + 1 : Nat))
  dropZeros 20 (found.getD ⟨(f.scale 10 (17 - top)).round, top - 17⟩)

/-- A given number of significant digits of a positive double, rounded to nearest; a tie goes to the
even digit. -/
def significant (count : Nat) (mantissa : Nat) (exponent : Int) : Digits :=
  let f := ofBinary mantissa exponent
  let e := magnitude f - count
  let d := (f.scale 10 (-e)).round
  if d < Nat.pow 10 count then ⟨d, e⟩ else ⟨d / 10, e + 1⟩

end NestedLogit.Decimal
