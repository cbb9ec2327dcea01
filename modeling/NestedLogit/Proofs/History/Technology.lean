import NestedLogit.Proofs.Alike
import NestedLogit.Technology

/-!
# Technologies forget what was calculated before

The calculation of a period overwrites the results of a technology in a fixed order: the carbon tax,
the cost, the share weight, the share, and at last what is produced. Technologies with the same
inputs become more alike with each step, whatever their results were at first, and in the end they
are the same.

## Main definitions

- `TechnologyResult.SameTax`, `SameCost`, `SameWeight`, `SameShare` — what is the same after each
  step

## Main statements

- `Technology.Alike.setOutput` — after the last step everything is the same
-/

namespace NestedLogit

variable {n : Nat} {α : Type} {p : Fin n}

open Series (At)

namespace TechnologyResult

/-- Results that are the same once the carbon tax is set. -/
structure SameTax (r r' : TechnologyResult α) : Prop where
  carbonTax : r.carbonTax = r'.carbonTax

/-- Results that are the same once the cost is calculated. -/
structure SameCost (r r' : TechnologyResult α) : Prop extends SameTax r r' where
  fuelPrice : r.fuelPrice = r'.fuelPrice
  cost : r.cost = r'.cost

/-- Results that are the same once the share weight is reset. -/
structure SameWeight (r r' : TechnologyResult α) : Prop extends SameCost r r' where
  shareWeight : r.shareWeight = r'.shareWeight
  recalibrated : r.recalibrated = r'.recalibrated

/-- Results that are the same once the share is set. -/
structure SameShare (r r' : TechnologyResult α) : Prop extends SameWeight r r' where
  share : r.share = r'.share

end TechnologyResult

open TechnologyResult

variable {T : Series n (TechnologyResult α) → Series n (TechnologyResult α) → Prop}
  {t t' : Technology n α}

namespace Technology.Alike

theorem isFixed (h : Alike T t t') : t.isFixed p = t'.isFixed p := by
  rw [Technology.isFixed, Technology.isFixed, h.parameters]

theorem isCalibrated (h : Alike T t t') : t.isCalibrated p = t'.isCalibrated p := by
  rw [Technology.isCalibrated, Technology.isCalibrated, h.parameters]

theorem anchors (h : Alike T t t') : t.anchors = t'.anchors := by
  rw [Technology.anchors, Technology.anchors, h.parameters]

theorem sameCost (h : Alike (At p SameShare) t t') : Alike (At p SameCost) t t' :=
  { h with results := SameWeight.toSameCost (SameShare.toSameWeight h.results) }

/-- Results that are equal have the same cost. -/
theorem sameCost_of_eq (h : Alike (At p Eq) t t') : Alike (At p SameCost) t t' :=
  have hr : t.results[p] = t'.results[p] := h.results
  { h with results := ⟨⟨by rw [hr]⟩, by rw [hr], by rw [hr]⟩ }

theorem contender [Quantity α] (h : Alike (At p SameCost) t t') :
    t.contender p = t'.contender p := by
  rw [Technology.contender, Technology.contender, h.parameters, h.baseShareWeight,
    h.results.cost]

theorem setCarbonTax (h : Alike T t t') (tax : α) :
    Alike (At p SameTax) (t.setCarbonTax p tax) (t'.setCarbonTax p tax) :=
  h.update ⟨rfl⟩

theorem calculateCost [Quantity α] (h : Alike (At p SameTax) t t') (price : α) :
    Alike (At p SameCost) (t.calculateCost p price) (t'.calculateCost p price) := by
  have hr : SameTax t.results[p] t'.results[p] := h.results
  refine h.update ⟨⟨hr.carbonTax⟩, rfl, ?_⟩
  rw [h.parameters, hr.carbonTax]

theorem resetShareWeight (h : Alike (At p SameCost) t t') :
    Alike (At p SameWeight) (t.resetShareWeight p) (t'.resetShareWeight p) := by
  have hr : SameCost t.results[p] t'.results[p] := h.results
  exact h.update ⟨⟨⟨hr.carbonTax⟩, hr.fuelPrice, hr.cost⟩, congrArg (·[p]) h.baseShareWeight, rfl⟩

theorem setShare (h : Alike (At p SameWeight) t t') {share share' : α} (hs : share = share') :
    Alike (At p SameShare) (t.setShare p share) (t'.setShare p share') := by
  have hr : SameWeight t.results[p] t'.results[p] := h.results
  exact h.update ⟨⟨⟨⟨hr.carbonTax⟩, hr.fuelPrice, hr.cost⟩, hr.shareWeight, hr.recalibrated⟩, hs⟩

/-- A share can be set again. -/
theorem changeShare (h : Alike (At p SameShare) t t') (share : α) :
    Alike (At p SameShare) (t.setShare p share) (t'.setShare p share) :=
  setShare { h with results := SameShare.toSameWeight h.results } rfl

theorem setCalibratedShareWeight (h : Alike (At p SameShare) t t') (weight : α) :
    Alike (At p SameShare) (t.setCalibratedShareWeight p weight)
      (t'.setCalibratedShareWeight p weight) := by
  have hr : SameShare t.results[p] t'.results[p] := h.results
  exact h.update ⟨⟨⟨⟨hr.carbonTax⟩, hr.fuelPrice, hr.cost⟩, rfl, rfl⟩, hr.share⟩

/-- After the last step there is no trace of earlier results. -/
theorem setOutput [Quantity α] (h : Alike (At p SameShare) t t') {output output' : α}
    (ho : output = output') :
    Alike (At p Eq) (t.setOutput p output) (t'.setOutput p output') := by
  have hr : SameShare t.results[p] t'.results[p] := h.results
  refine h.update ?_
  rw [ho, h.parameters, h.fuel, hr.carbonTax, hr.fuelPrice, hr.cost, hr.shareWeight,
    hr.recalibrated, hr.share]

end Technology.Alike

end NestedLogit
