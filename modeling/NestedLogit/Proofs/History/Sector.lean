import NestedLogit.Proofs.History.Subsector
import NestedLogit.Proofs.Sector.Sharing

/-!
# Sectors forget what was calculated before

The steps of a period for a sector, taken in two sectors with the same inputs.

## Main definitions

- `SectorResult.SameDemand` — what is the same once the demand is set

## Main statements

- `Sector.Alike.calculate` — the calculation goes the same way, and ends with the same results
-/

namespace NestedLogit

variable {n : Nat} {α : Type} {p : Fin n}

open Series (At)
open TechnologyResult SubsectorResult

/-- Results that are the same once the demand is set. -/
structure SectorResult.SameDemand (r r' : SectorResult α) : Prop where
  demand : r.demand = r'.demand

open SectorResult

variable {T : Series n (TechnologyResult α) → Series n (TechnologyResult α) → Prop}
  {S : Series n (SubsectorResult α) → Series n (SubsectorResult α) → Prop}
  {C : Series n (SectorResult α) → Series n (SectorResult α) → Prop}

namespace Subsector.Alike

variable {x x' : Subsector n α}

theorem samePrice_sameScale (h : Alike T (At p SamePrice) x x') : Alike T (At p SameScale) x x' :=
  { h with results := SamePrice.toSameScale h.results }

theorem award (h : Alike T (At p SamePrice) x x') (a : Award α) (c : Contender α)
    (target : Option α) :
    Alike T (At p SameAward) (Sector.award p x a c target) (Sector.award p x' a c target) := by
  have hr : SamePrice x.results[p] x'.results[p] := h.results
  rw [Sector.award_eq_update, Sector.award_eq_update]
  exact h.update ⟨⟨⟨hr.fixedSupplyScale⟩, hr.price, hr.fuelPrice⟩, rfl, rfl, rfl, rfl⟩

end Subsector.Alike

namespace Sector.Alike

variable {s s' : Sector n α}

theorem applyCarbonTax (h : Alike T S C s s') (tax : α) :
    Alike (At p SameTax) S C (s.applyCarbonTax p tax) (s'.applyCarbonTax p tax) :=
  h.mapSubsectors fun hx => hx.applyCarbonTax tax

theorem setDemand (h : Alike T S C s s') (demand : α) :
    Alike T S (At p SameDemand) (s.setDemand p demand) (s'.setDemand p demand) :=
  h.update ⟨rfl⟩

variable [Quantity α]

theorem prepareSubsectors (h : Alike (At p SameTax) S C s s') {prices prices' : GoodTable α}
    (hprices : ∀ good, prices.amount? good p = prices'.amount? good p) :
    Run.Agree (Alike (At p SameShare) (At p SamePrice) C) (s.prepareSubsectors p prices)
      (s'.prepareSubsectors p prices') := by
  refine Run.Agree.map (Run.Agree.each (fun {x x'} hx => ?_) h.subsectors) h.withSubsectors
  exact ((hx.calculateCosts hprices).andThen fun hx => hx.shareTechnologies).andThen
    fun hx => .ok hx.calculatePrice

omit [Quantity α] in
theorem samePrice_sameScale (h : Alike T (At p SamePrice) C s s') :
    Alike T (At p SameScale) C s s' :=
  { h with subsectors := h.subsectors.imp fun _ _ hx => hx.samePrice_sameScale }

theorem fixedSupply (h : Alike T (At p SameScale) C s s') :
    s.fixedSupply p = s'.fixedSupply p := by
  have hfixed : List.Forall₂ (Subsector.Alike T (At p SameScale))
      (s.subsectors.filter (·.isAllFixed p)) (s'.subsectors.filter (·.isAllFixed p)) :=
    List.rel_filter (fun _ _ hx => by simp only [hx.isAllFixed]) h.subsectors
  rw [Sector.fixedSupply, Sector.fixedSupply, map_eq_of_forall₂ hfixed fun hx => hx.fixedSupply]

theorem calibrationOutput (h : Alike T (At p SameScale) C s s') :
    s.calibrationOutput p = s'.calibrationOutput p := by
  rw [Sector.calibrationOutput, Sector.calibrationOutput,
    filterMap_eq_of_forall₂ h.subsectors fun hx => hx.calibrationTarget]

theorem fixedSupplyFactor (h : Alike T (At p SameScale) C s s') (demand : α) (calibrate : Bool) :
    s.fixedSupplyFactor p demand calibrate = s'.fixedSupplyFactor p demand calibrate := by
  have hall : (s.subsectors.all fun x => x.isAllFixed p || x.isCalibratable p)
      = s'.subsectors.all fun x => x.isAllFixed p || x.isCalibratable p :=
    all_eq_of_forall₂ h.subsectors fun hx => by rw [hx.isAllFixed, hx.isCalibratable]
  simp only [Sector.fixedSupplyFactor, h.fixedSupply, h.calibrationOutput, hall, h.path]

theorem scaleFixedSupplies (h : Alike T (At p SamePrice) C s s') (demand : α)
    (calibrate : Bool) :
    Alike T (At p SamePrice) C (s.scaleFixedSupplies p demand calibrate).1
        (s'.scaleFixedSupplies p demand calibrate).1 ∧
      (s.scaleFixedSupplies p demand calibrate).2 =
        (s'.scaleFixedSupplies p demand calibrate).2 := by
  have hfactor := h.samePrice_sameScale.fixedSupplyFactor demand calibrate
  unfold Sector.scaleFixedSupplies
  rw [← hfactor]
  cases s.fixedSupplyFactor p demand calibrate with
  | none => exact ⟨h, rfl⟩
  | some factor =>
    refine ⟨h.mapSubsectors fun {x x'} hx => ?_, rfl⟩
    have hr : SamePrice x.results[p] x'.results[p] := hx.results
    rw [hx.isAllFixed]
    split
    · exact hx.update ⟨⟨congrArg (· * factor.1) hr.fixedSupplyScale⟩, hr.price, hr.fuelPrice⟩
    · exact hx

theorem fitted (h : Alike T (At p SamePrice) C s s') (demand : α) (calibrate : Bool) :
    Alike T (At p SamePrice) C (s.fitted p demand calibrate).1
        (s'.fitted p demand calibrate).1 ∧
      (s.fitted p demand calibrate).2 = (s'.fitted p demand calibrate).2 := by
  unfold Sector.fitted
  split
  · exact h.scaleFixedSupplies demand calibrate
  · exact ⟨h, rfl⟩

theorem contender {x x' : Subsector n α} (h : x.Alike T (At p SamePrice) x') (demand : α) :
    Sector.contender p demand x = Sector.contender p demand x' := by
  simp only [Sector.contender, h.contender, h.isAllFixed, h.samePrice_sameScale.fixedSupply]

theorem targetShare {x x' : Subsector n α} (h : x.Alike T (At p SamePrice) x') (demand : α)
    (calibrate : Bool) :
    Sector.targetShare p demand calibrate x = Sector.targetShare p demand calibrate x' := by
  rw [Sector.targetShare, Sector.targetShare, h.samePrice_sameScale.calibrationTarget]

theorem aims (h : Alike T (At p SamePrice) C s s') (demand : α) (calibrate : Bool) :
    s.aims p demand calibrate = s'.aims p demand calibrate :=
  map_eq_of_forall₂ h.subsectors fun hx => by rw [contender hx, targetShare hx]

theorem shareSubsectors (h : Alike T (At p SamePrice) C s s') (demand : α) (calibrate : Bool) :
    Run.Agree (Alike T (At p SameAward) C) (s.shareSubsectors p demand calibrate)
      (s'.shareSubsectors p demand calibrate) := by
  have hfitted := h.fitted demand calibrate
  obtain ⟨⟨fit, log⟩, hfit⟩ : ∃ x, s.fitted p demand calibrate = x := ⟨_, rfl⟩
  obtain ⟨⟨fit', log'⟩, hfit'⟩ : ∃ x, s'.fitted p demand calibrate = x := ⟨_, rfl⟩
  rw [hfit, hfit'] at hfitted
  obtain ⟨hs, rfl⟩ := hfitted
  -- Both sectors have the same aims, so that the same is decided for them.
  have haims := hs.aims demand calibrate
  cases ho : (allocateAims (fit.aims p demand calibrate)).outcome with
  | error e =>
    rw [shareSubsectors_of_error hfit ho, shareSubsectors_of_error hfit' (haims ▸ ho), hs.path]
    exact ⟨rfl, rfl, fun hn => by cases hn⟩
  | ok a =>
    rw [shareSubsectors_of_ok hfit ho, shareSubsectors_of_ok hfit' (haims ▸ ho), hs.path, haims]
    exact ⟨rfl, rfl, fun _ => hs.withSubsectors
      (forall₂_zipWith hs.subsectors (fun d hx => hx.award d.1 d.2.1 d.2.2) _)⟩

theorem produce (h : Alike (At p SameShare) (At p SameAward) C s s') (output : α)
    (calibrate : Bool) :
    Run.Agree (Alike (At p Eq) (At p Eq) C) (s.produce p output calibrate)
      (s'.produce p output calibrate) := by
  refine Run.Agree.map (Run.Agree.each (fun {x x'} hx => ?_) h.subsectors) h.withSubsectors
  exact hx.setOutput (by rw [hx.results.share]) calibrate

theorem takeStock (h : Alike (At p Eq) (At p Eq) (At p SameDemand) s s') :
    Alike (At p Eq) (At p Eq) (At p Eq) (s.takeStock p) (s'.takeStock p) := by
  have hsum : ∀ f : SubsectorResult α → α,
      (s.subsectors.map fun x => f x.results[p]) = s'.subsectors.map fun x => f x.results[p] :=
    fun f => map_eq_of_forall₂ h.subsectors fun hx => congrArg f hx.results
  refine h.update ?_
  rw [hsum (·.output), hsum fun r => r.price * r.output, hsum fun r => r.price * r.share,
    h.results.demand]

/-- Calculations of sectors with the same inputs go the same way, whatever was calculated before,
and end with the same results. -/
theorem calculate (h : Alike (At p SameTax) S C s s') (demand : α)
    {prices prices' : GoodTable α}
    (hprices : ∀ good, prices.amount? good p = prices'.amount? good p) (calibrate : Bool) :
    Run.Agree (Alike (At p Eq) (At p Eq) (At p Eq)) (s.calculate p demand prices calibrate)
      (s'.calculate p demand prices' calibrate) :=
  ((((h.setDemand demand).prepareSubsectors hprices).andThen
    fun hs => hs.shareSubsectors demand calibrate).andThen
    fun hs => hs.produce _ calibrate).andThen
    fun hs => .ok hs.takeStock

end Sector.Alike

end NestedLogit
