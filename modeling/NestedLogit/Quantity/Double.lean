import NestedLogit.Quantity

/-!
# Binary floating point as a quantity

Double-precision numbers, on which a model runs. Comparisons with an undefined number are false, and
powers are those of the platform's mathematical library.
-/

namespace NestedLogit

instance : Quantity Float where
  zero := 0.0
  one := 1.0
  whole := Float.ofNat
  pow := Float.pow
  isFinite := Float.isFinite
  isUndefined := Float.isNaN
  decidableLT := Float.decLt
  decidableLE := Float.decLe

end NestedLogit
