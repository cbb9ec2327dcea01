/-!
# Quantities

The arithmetic that prices, shares and outputs are calculated in. Every calculation of the library
is written against the class `Quantity`, so that it can run on binary floating point and be reasoned
about over an exact ordered field.

## Design notes

The class asks for no laws. A floating-point type has values that are not numbers and values that
are not finite, and the calculation tests for both; an exact field answers these tests with a
constant.
-/

namespace NestedLogit

/-- An arithmetic with an order, whole numbers and powers. -/
class Quantity (α : Type) extends Zero α, One α, Add α, Sub α, Mul α, Div α, LT α, LE α where
  /-- The quantity that stands for a whole number. -/
  whole : Nat → α
  /-- The first argument raised to the second. -/
  pow : α → α → α
  /-- Whether a quantity is neither infinite nor undefined. -/
  isFinite : α → Bool
  /-- Whether a quantity is the undefined result of an operation. -/
  isUndefined : α → Bool
  /-- The strict order can be tested. -/
  decidableLT : DecidableLT α
  /-- The order can be tested. -/
  decidableLE : DecidableLE α

attribute [reducible, instance] Quantity.decidableLT Quantity.decidableLE

namespace Quantity

variable {α : Type} [Quantity α]

/-- The sum of a list, taken from left to right. -/
def total (xs : List α) : α :=
  xs.foldl (· + ·) 0

/-- The larger of two quantities; an undefined one gives way to the other. -/
def larger (a b : α) : α :=
  if isUndefined a then b else if isUndefined b then a else if a < b then b else a

/-- The smaller of two quantities; an undefined one gives way to the other. -/
def smaller (a b : α) : α :=
  if isUndefined a then b else if isUndefined b then a else if b < a then b else a

/-- The distance of a quantity from zero. -/
def magnitude (a : α) : α :=
  if a < 0 then 0 - a else a

/-- Whether a quantity is a proportion, that is, lies between zero and one. An undefined quantity is
none. -/
def isProportion (a : α) : Bool :=
  0 ≤ a && a ≤ 1

/-- Tolerance for shares that have to add up: a thousand-millionth of the market. -/
def shareTolerance : α :=
  1 / whole 1000000000

@[simp] theorem total_nil : total ([] : List α) = 0 := rfl

end Quantity

end NestedLogit
