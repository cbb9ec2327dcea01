/-!
# Double-precision numbers as fractions

A finite double is a whole number times a power of two. This module takes a double apart into these
two, and puts the double together that is nearest to a fraction.
-/

namespace NestedLogit.Decimal

/-- A fraction of whole numbers. -/
structure Fraction where
  numerator : Nat
  denominator : Nat
  deriving Repr

namespace Fraction

/-- A fraction times a power of a base. -/
def scale (base : Nat) (f : Fraction) (exponent : Int) : Fraction :=
  if 0 ≤ exponent then ⟨f.numerator * Nat.pow base exponent.toNat, f.denominator⟩
  else ⟨f.numerator, f.denominator * Nat.pow base (-exponent).toNat⟩

/-- The whole part. -/
def floor (f : Fraction) : Nat :=
  f.numerator / f.denominator

/-- The nearest whole number; of two, the even one. -/
def round (f : Fraction) : Nat :=
  let q := f.numerator / f.denominator
  let twice := 2 * (f.numerator % f.denominator)
  if twice < f.denominator then q
  else if f.denominator < twice then q + 1
  else if q % 2 = 0 then q else q + 1

/-- Whether one fraction is less than another. -/
def lt (f g : Fraction) : Bool :=
  f.numerator * g.denominator < g.numerator * f.denominator

/-- Whether one fraction is at most another. -/
def le (f g : Fraction) : Bool :=
  f.numerator * g.denominator ≤ g.numerator * f.denominator

end Fraction

/-- A double, taken apart. -/
inductive Double where
  /-- Not a number. -/
  | undefined
  | infinite (negative : Bool)
  /-- The number `mantissa * 2 ^ exponent`, or its negative. -/
  | finite (negative : Bool) (mantissa : Nat) (exponent : Int)
  deriving Repr

/-- The exponent of the smallest positive double. -/
def minExponent : Int := -1074

/-- Takes a double apart. -/
def Double.ofFloat (x : Float) : Double :=
  let bits := x.toBits.toNat
  let negative : Bool := bits / Nat.pow 2 63 == 1
  let field : Nat := bits / Nat.pow 2 52 % Nat.pow 2 11
  let fraction : Nat := bits % Nat.pow 2 52
  if field = 2047 then if fraction = 0 then .infinite negative else .undefined
  else if field = 0 then .finite negative fraction minExponent
  else .finite negative (Nat.pow 2 52 + fraction) ((field : Int) - 1075)

/-- The positive double of a mantissa below `2 ^ 53` and an exponent that fit, or infinity. -/
def pack (mantissa : Nat) (exponent : Int) : Float :=
  if mantissa < Nat.pow 2 52 then Float.ofBits mantissa.toUInt64
  else
    let field := (exponent + 1075).toNat
    if 2047 ≤ field then Float.ofBits (2047 * Nat.pow 2 52 : Nat).toUInt64
    else Float.ofBits (field * Nat.pow 2 52 + (mantissa - Nat.pow 2 52)).toUInt64

/-- The double that is nearest to a fraction; of two, the one with the even mantissa. A fraction
beyond the largest double becomes infinite. -/
def Fraction.toFloat (f : Fraction) : Float :=
  if f.numerator = 0 then 0.0
  else
    -- `2 ^ log` is at most twice the fraction and more than half of it
    let log : Int := (f.numerator.log2 : Int) - (f.denominator.log2 : Int)
    let fits (e : Int) : Bool := (f.scale 2 (-e)).floor < Nat.pow 2 53
    let e := if fits (log - 53) then log - 53 else log - 52
    let e := if e < minExponent then minExponent else e
    let m := (f.scale 2 (-e)).round
    if m < Nat.pow 2 53 then pack m e else pack (Nat.pow 2 52) (e + 1)

end NestedLogit.Decimal
