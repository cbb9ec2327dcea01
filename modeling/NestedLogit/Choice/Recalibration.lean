import NestedLogit.Choice.Allocation

/-!
# Recalibration of share weights

Adjusts the share weights of contenders until the allocation gives each of them its target share.
Every pass multiplies the weight of a contender that misses its target by the ratio of target to
share, and allocates again. A target that cannot be met, for instance because of capacity limits, is
left unmet: the passes just end.
-/

namespace NestedLogit

/-- The most passes that are made to reach the targets. -/
def maxRecalibrationPasses : Nat := 100

/-- A contender whose share is to reach a target, if it has one. -/
structure Aim (α : Type) where
  contender : Contender α
  target : Option α

/-- What a recalibration ends with: the contenders with their weights as they were left, and the
allocation that these weights give or the error that stopped it. -/
structure Recalibration (α : Type) where
  contenders : List (Contender α)
  outcome : Except (AllocationError α) (Allocation α)

/-- Pairs contenders with targets, one each. -/
def aims? {α : Type} (contenders : List (Contender α)) (targets : List (Option α)) :
    Option (List (Aim α)) :=
  if contenders.length = targets.length then some (List.zipWith Aim.mk contenders targets) else none

variable {α : Type} [Quantity α]

/-- How far a share may be from its target: a millionth of a millionth of the market. -/
def recalibrationTolerance : α :=
  1 / Quantity.whole 1000000000000

namespace Aim

/-- The share weight that brings a contender closer to its target, given its share. None is needed
at the target, none is taken from a fixed share, and none helps a contender that has a positive
weight and still gets nothing. -/
def adjustment (a : Aim α) (share : α) : Option α :=
  match a.target with
  | none => none
  | some target =>
    if a.contender.fixedShare.isSome
        || Quantity.magnitude (share - target) ≤ recalibrationTolerance then none
    else if target ≤ 0 then some 0
    else if 0 < share then some (a.contender.shareWeight * (target / share))
    else if a.contender.shareWeight ≤ 0 then some 1
    else none

/-- Adjusts the share weight, where an adjustment is called for. -/
def adjust (a : Aim α) (share : α) : Aim α :=
  match a.adjustment share with
  | some weight => { a with contender := { a.contender with shareWeight := weight } }
  | none => a

end Aim

/-- Makes passes from an allocation of the contenders until none needs an adjustment. -/
def recalibrationPasses : Nat → List (Aim α) → Allocation α → Recalibration α
  | 0, aims, allocation => ⟨aims.map Aim.contender, .ok allocation⟩
  | fuel + 1, aims, allocation =>
    if (aims.zip allocation.shares).any fun x => (x.1.adjustment x.2).isSome then
      let adjusted := List.zipWith Aim.adjust aims allocation.shares
      match allocate (adjusted.map Aim.contender) with
      | .ok next => recalibrationPasses fuel adjusted next
      | .error e => ⟨adjusted.map Aim.contender, .error e⟩
    else ⟨aims.map Aim.contender, .ok allocation⟩

/-- Adjusts the share weights of contenders towards their target shares. -/
def recalibrate (aims : List (Aim α)) : Recalibration α :=
  match allocate (aims.map Aim.contender) with
  | .ok allocation => recalibrationPasses maxRecalibrationPasses aims allocation
  | .error e => ⟨aims.map Aim.contender, .error e⟩

end NestedLogit
