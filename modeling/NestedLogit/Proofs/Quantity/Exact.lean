import Mathlib.Algebra.BigOperators.Ring.List
import Mathlib.Algebra.Order.BigOperators.Group.List
import Mathlib.Algebra.Order.Field.Basic
import Mathlib.Algebra.Order.Field.Rat
import Mathlib.Tactic.Linarith
import Mathlib.Tactic.Positivity
import Mathlib.Tactic.Ring
import NestedLogit.Quantity

/-!
# Exact quantities

Arithmetic without rounding: the operations and the order are those of an ordered field, and no
quantity is undefined. Laws about amounts are stated over these quantities.

## Main definitions

- `ExactQuantity` — the quantities of an ordered field

## Design notes

Of powers only their sign is used: a power of a positive price is positive. Which quantities count
as finite is left open, so that a law also covers prices that are not finite and weights that grow
beyond all bounds.
-/

namespace NestedLogit

/-- Quantities whose arithmetic and order are those of an ordered field. -/
class ExactQuantity (α : Type) extends
    Quantity α, Field α, LinearOrder α, IsStrictOrderedRing α where
  /-- Whole numbers are those of the field. -/
  whole_cast (k : ℕ) : whole k = (k : α)
  /-- No quantity is undefined. -/
  undefined_false (a : α) : isUndefined a = false
  /-- Powers of positive quantities are positive. -/
  pow_positive {a : α} (b : α) : 0 < a → 0 < pow a b

/-- Rational numbers, with powers to the numerator of the exponent, which are the true ones for
whole exponents. -/
instance : Quantity ℚ where
  zero := 0
  one := 1
  whole k := (k : ℚ)
  pow a b := a ^ b.num
  isFinite _ := true
  isUndefined _ := false
  decidableLT := inferInstance
  decidableLE := inferInstance

instance : ExactQuantity ℚ where
  __ := (inferInstance : Quantity ℚ)
  __ := (inferInstance : Field ℚ)
  __ := (inferInstance : LinearOrder ℚ)
  __ := (inferInstance : IsStrictOrderedRing ℚ)
  whole_cast _ := rfl
  undefined_false _ := rfl
  pow_positive b h := zpow_pos h b.num

namespace Quantity

variable {α : Type} [ExactQuantity α]

@[simp] theorem whole_eq_cast (k : ℕ) : (whole k : α) = (k : α) :=
  ExactQuantity.whole_cast k

@[simp] theorem isUndefined_eq_false (a : α) : isUndefined a = false :=
  ExactQuantity.undefined_false a

/-- In exact arithmetic the order of summation does not matter. -/
theorem total_eq_sum (xs : List α) : total xs = xs.sum := by
  rw [List.sum_eq_foldl]
  rfl

theorem larger_eq_max (a b : α) : larger a b = max a b := by
  simp only [larger, isUndefined_eq_false, Bool.false_eq_true, if_false]
  split
  · next h => exact (max_eq_right h.le).symm
  · next h => exact (max_eq_left (not_lt.1 h)).symm

theorem smaller_eq_min (a b : α) : smaller a b = min a b := by
  simp only [smaller, isUndefined_eq_false, Bool.false_eq_true, if_false]
  split
  · next h => exact (min_eq_right h.le).symm
  · next h => exact (min_eq_left (not_lt.1 h)).symm

theorem magnitude_eq_abs (a : α) : magnitude a = |a| := by
  unfold magnitude
  split
  · next h => rw [abs_of_neg h, zero_sub]
  · next h => rw [abs_of_nonneg (not_lt.1 h)]

theorem isProportion_iff {a : α} : isProportion a = true ↔ 0 ≤ a ∧ a ≤ 1 := by
  simp [isProportion]

theorem shareTolerance_pos : (0 : α) < shareTolerance := by
  simp only [shareTolerance, whole_eq_cast]
  positivity

theorem shareTolerance_lt_one : (shareTolerance : α) < 1 := by
  simp only [shareTolerance, whole_eq_cast]
  exact (div_lt_one (by positivity)).2 (by norm_num)

end Quantity

end NestedLogit
