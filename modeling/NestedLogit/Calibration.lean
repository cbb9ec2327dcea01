import NestedLogit.Series.Sparse

/-!
# Calibration

When an output matches historical data, how a fixed supply is scaled to leave room for calibrated
outputs, and how a recalibrated share weight is carried forward to later periods.
-/

namespace NestedLogit

section Targets

variable {α : Type} [Quantity α]

/-- Whether an output matches a target. The accuracy is relative to the target, or absolute if the
target is not positive. -/
def isWithinAccuracy (output target accuracy : α) : Bool :=
  if 0 < target then Quantity.magnitude (output - target) ≤ accuracy * target
  else Quantity.magnitude output ≤ accuracy

/-- The factor by which a fixed supply has to be scaled to fill what calibrated outputs leave of a
target. A supply that is not positive is not scaled. -/
def fixedSupplyScaleFactor (target calibrated fixed : α) : α :=
  if fixed ≤ 0 then 1 else Quantity.larger (target - calibrated) 0 / fixed

end Targets

namespace Series

variable {α : Type} [Quantity α] {n : Nat}

/-- Interpolates by year from a value at period `a` to the value that the series has at period `b`.
Only the periods strictly between change. -/
def interpolateFrom (s : Series n α) (c : Calendar n) (a : Fin n) (value : α) (b : Fin n) :
    Series n α :=
  Sparse.drawLine c s a b value s[b]

/-- Interpolates between two periods that the series has, the first before the second. -/
def interpolateFrom? (s : Series n α) (c : Calendar n) (a : Nat) (value : α) (b : Nat) :
    Option (Series n α) := do
  let p ← c.period? a
  let q ← c.period? b
  if p < q then some (s.interpolateFrom c p value q) else none

/-- The first anchored period after a period. -/
def nextAnchor (anchors : Series n Bool) (p : Fin n) : Option (Fin n) :=
  (List.finRange n).find? fun q => p < q && anchors[q]

/-- Carries a value forward from a period: to the next anchor by interpolation, or unchanged to the
end if there is none. The value at the period itself does not change. -/
def carryFrom (s : Series n α) (c : Calendar n) (p : Fin n) (value : α) (anchors : Series n Bool) :
    Series n α :=
  match nextAnchor anchors p with
  | some q => s.interpolateFrom c p value q
  | none => s.fillFrom (p.val + 1) value

end Series

end NestedLogit
