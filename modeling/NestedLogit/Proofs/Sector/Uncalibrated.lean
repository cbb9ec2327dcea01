import NestedLogit.Proofs.Sector.FixedSupply
import NestedLogit.Proofs.Subsector.Reproduction

/-!
# Calibration without calibration data

Without calibration data there is nothing to recalibrate, and a calculation with calibration goes
the same way as one without. There is one exception: with calibration on, a sector that has nothing
but fixed supply scales it to the demand before it is shared out, and with calibration off it scales
it only if it is too much for the demand. Shares within subsectors and prices do not depend on this,
but a supply that misses the demand by less than the tolerance is not scaled up without calibration.

## Main definitions

- `Sector.ScaledToFit` — fixed supply that only calibration scales

## Main statements

- `Sector.sameEnd_calculate` — calibration makes no difference to any other sector
-/

namespace NestedLogit

variable {n : Nat} {α : Type} {p : Fin n}

namespace Subsector

variable [ExactQuantity α] {s : Subsector n α}

/-- Without calibration data there is nothing to recalibrate. -/
theorem Uncalibrated.serve (h : s.Uncalibrated p) (output : α) (calibrate : Bool) :
    s.serve p output calibrate = s.serve p output false := by
  cases calibrate with
  | false => rfl
  | true =>
    have hnobody : (s.variableTechnologies p).any (·.isCalibrated p) = false :=
      List.any_eq_false.2 fun t ht => by simp [h t (List.mem_filter.1 ht).1]
    have hready : ∀ variableOutput : α, s.recalibrateTechnologies p variableOutput = .ok s :=
      fun variableOutput => if_pos (by simp [hnobody])
    unfold Subsector.serve
    dsimp only
    rw [if_pos rfl, hready, if_neg Bool.false_ne_true]

/-- Without calibration data a subsector produces the same with calibration as without. -/
theorem Uncalibrated.setOutput (h : s.Uncalibrated p) (output : α) (calibrate : Bool) :
    s.setOutput p output calibrate = s.setOutput p output false := by
  have hself : ∀ calibrate : Bool, s.fitFixedSupply p output calibrate = s := fun calibrate =>
    if_neg (by rw [h.isCalibratable_eq_false, Bool.and_false]; exact Bool.false_ne_true)
  have hscaled : ∀ factor : α, (s.scaleFixedSupply p factor).Uncalibrated p := fun _ => h
  unfold Subsector.setOutput
  rw [hself, hself]
  dsimp only
  rw [h.serve, (hscaled _).serve]

end Subsector

namespace Sector

variable {s : Sector n α}

/-- No technology has calibration data in the period. -/
def Uncalibrated (p : Fin n) (s : Sector n α) : Prop :=
  ∀ t ∈ s.technologies, t.isCalibrated p = false

theorem Uncalibrated.subsectors (h : s.Uncalibrated p) : ∀ x ∈ s.subsectors, x.Uncalibrated p :=
  fun x hx t ht => h t (List.mem_flatMap.2 ⟨x, hx, ht⟩)

theorem Uncalibrated.of_framed {s' : Sector n α} (h : s.Uncalibrated p) (hframed : s.Framed p s') :
    s'.Uncalibrated p :=
  forall_mem_of_forall₂ hframed.technologies fun t ht _ ht' => by
    rw [Technology.isCalibrated, ← ht'.parameters]
    exact h t ht

variable [ExactQuantity α] {demand : α} {prices : GoodTable α}

/-- Calibration data ask for nothing. -/
theorem Uncalibrated.calibrationOutput (h : s.Uncalibrated p) : s.calibrationOutput p = 0 := by
  have hnone : s.subsectors.filterMap (·.calibrationTarget p) = [] :=
    List.filterMap_eq_nil_iff.2 fun x hx =>
      if_neg (by simp [(h.subsectors x hx).isCalibratable_eq_false])
  rw [Sector.calibrationOutput, hnone, Quantity.total_nil]

section FitFactor

/-- Without calibration fixed supply is scaled if it is too much for the demand. -/
theorem fitFactor_false (s : Sector n α) (hdemand : 0 < demand) (hsupply : 0 < s.fixedSupply p) :
    s.fitFactor p demand false
      = if demand * (1 + Quantity.shareTolerance) < s.fixedSupply p then demand / s.fixedSupply p
        else 1 := by
  rw [fitFactor, if_pos hdemand, fixedSupplyFactor]
  rw [if_neg hsupply.not_ge, Bool.false_and, if_neg Bool.false_ne_true]
  split <;> rfl

/-- With calibration it is always scaled if there is nothing else. -/
theorem Uncalibrated.fitFactor_true (h : s.Uncalibrated p) (hall : s.AllFixed p)
    (hdemand : 0 < demand) (hsupply : 0 < s.fixedSupply p) :
    s.fitFactor p demand true = demand / s.fixedSupply p := by
  have hconsistent : (true && s.subsectors.all fun x => x.isAllFixed p || x.isCalibratable p)
      = true := by
    rw [Bool.true_and, List.all_eq_true]
    exact fun x hx => by rw [hall x hx, Bool.true_or]
  rw [fitFactor, if_pos hdemand, fixedSupplyFactor]
  rw [if_neg hsupply.not_ge, if_pos hconsistent, h.calibrationOutput, fixedSupplyScaleFactor,
    if_neg hsupply.not_ge, sub_zero, Quantity.larger_eq_max, max_eq_left hdemand.le]
  rfl

/-- Calibration waits for calibration data if there is something else. -/
theorem Uncalibrated.fitFactor_of_not_allFixed (h : s.Uncalibrated p) (hall : ¬s.AllFixed p)
    (calibrate : Bool) : s.fitFactor p demand calibrate = s.fitFactor p demand false := by
  obtain ⟨x, hx, hfixed⟩ : ∃ x ∈ s.subsectors, ¬x.isAllFixed p = true := by
    simpa [AllFixed] using hall
  have hopen : (calibrate && s.subsectors.all fun x => x.isAllFixed p || x.isCalibratable p)
      = false := by
    have hneither : (x.isAllFixed p || x.isCalibratable p) = false := by
      rw [(h.subsectors x hx).isCalibratable_eq_false, Bool.or_false]
      exact Bool.eq_false_iff.2 hfixed
    rw [Bool.and_eq_false_iff]
    exact .inr (List.all_eq_false.2 ⟨x, hx, Bool.eq_false_iff.1 hneither⟩)
  simp only [fitFactor, fixedSupplyFactor, hopen, Bool.false_and]

/-- Fixed supply of a sector that has nothing else, which calibration scales to the demand and a
calculation without calibration leaves as it is: it is not too much, and not the demand itself. -/
structure ScaledToFit (p : Fin n) (demand : α) (s : Sector n α) : Prop where
  allFixed : s.AllFixed p
  supply_pos : 0 < s.fixedOutputs p
  fits : s.fixedOutputs p ≤ demand * (1 + Quantity.shareTolerance)
  ne_demand : s.fixedOutputs p ≠ demand

/-- In any other sector fixed supply is scaled by the same factor with calibration and without. -/
theorem Uncalibrated.fitFactor_eq (h : s.Uncalibrated p) (hfit : ¬s.ScaledToFit p demand)
    (hoffers : ∀ x ∈ s.subsectors, (x.offer p prices).failure = none) :
    (s.offering p demand prices).fitFactor p demand true
      = (s.offering p demand prices).fitFactor p demand false := by
  have hframed := s.framed_offering (p := p) demand prices
  have hsupply := fixedSupply_offering demand hoffers
  by_cases hall : s.AllFixed p
  · rcases le_or_gt demand 0 with hnothing | hdemand
    · rw [fitFactor, fitFactor, if_neg hnothing.not_gt, if_neg hnothing.not_gt]
    rcases le_or_gt (s.fixedOutputs p) 0 with hnone | hsome
    · simp only [fitFactor, fixedSupplyFactor, hsupply, if_pos hnone]
    -- Calibration scales the supply to the demand: what is too much for it is scaled without
    -- calibration too, and what is equal to it is not changed.
    have hpos : 0 < (s.offering p demand prices).fixedSupply p := hsupply ▸ hsome
    rw [(h.of_framed hframed).fitFactor_true (hframed.allFixed_iff.2 hall) hdemand hpos,
      fitFactor_false _ hdemand hpos, hsupply]
    split
    · rfl
    · next hfits =>
      have heq : s.fixedOutputs p = demand := by
        by_contra hne
        exact hfit ⟨hall, hsome, not_lt.1 hfits, hne⟩
      rw [heq, div_self hdemand.ne']
  · exact (h.of_framed hframed).fitFactor_of_not_allFixed (mt hframed.allFixed_iff.1 hall) true

end FitFactor

section SameEnd

/-- Without calibration data nobody has a target. -/
theorem Uncalibrated.aims (h : s.Uncalibrated p) (demand : α) (calibrate : Bool) :
    s.aims p demand calibrate = s.aims p demand false :=
  List.map_congr_left fun x hx => by
    have hcalibratable := (h.subsectors x hx).isCalibratable_eq_false
    rw [targetShare_eq_none hcalibratable, targetShare_eq_none hcalibratable]

/-- A demand is shared out in the same way if fixed supply is scaled by the same factor. -/
theorem Uncalibrated.sameEnd_shareSubsectors (h : s.Uncalibrated p)
    (hfactor : s.fitFactor p demand true = s.fitFactor p demand false) :
    Run.SameEnd (s.shareSubsectors p demand true) (s.shareSubsectors p demand false) := by
  have hfitted : (s.fitted p demand true).1 = (s.fitted p demand false).1 := by
    rw [fitted_eq, fitted_eq, hfactor]
  have huncalibrated : (s.fitted p demand false).1.Uncalibrated p :=
    h.of_framed (s.framed_fitted demand false)
  obtain ⟨⟨fit, log⟩, hon⟩ : ∃ x, s.fitted p demand true = x := ⟨_, rfl⟩
  obtain ⟨⟨fit', log'⟩, hoff⟩ : ∃ x, s.fitted p demand false = x := ⟨_, rfl⟩
  rw [hon, hoff] at hfitted
  rw [hoff] at huncalibrated
  obtain rfl : fit = fit' := hfitted
  have haims := huncalibrated.aims demand true
  cases ho : (allocateAims (fit.aims p demand false)).outcome with
  | error e =>
    rw [shareSubsectors_of_error hon (haims ▸ ho), shareSubsectors_of_error hoff ho]
    exact ⟨rfl, rfl⟩
  | ok a =>
    rw [shareSubsectors_of_ok hon (haims ▸ ho), shareSubsectors_of_ok hoff ho, haims]
    exact ⟨rfl, rfl⟩

theorem Uncalibrated.produce (h : s.Uncalibrated p) (output : α) (calibrate : Bool) :
    s.produce p output calibrate = s.produce p output false := by
  have hone : ∀ x ∈ s.subsectors, x.setOutput p (x.results[p].share * output) calibrate
      = x.setOutput p (x.results[p].share * output) false :=
    fun x hx => (h.subsectors x hx).setOutput _ calibrate
  exact congrArg (fun r : Run α (List (Subsector n α)) =>
    r.map fun subsectors => { s with subsectors }) (Run.each_congr hone)

/-- Unless calibration scales fixed supply to the demand, it makes no difference without calibration
data. -/
theorem Uncalibrated.sameEnd_calculate (h : s.Uncalibrated p) (hfit : ¬s.ScaledToFit p demand)
    (prices : GoodTable α) :
    Run.SameEnd (s.calculate p demand prices true) (s.calculate p demand prices false) := by
  have hprepared : s.Framed p ((s.setDemand p demand).prepareSubsectors p prices).state :=
    s.framed_offering demand prices
  have hshared : Run.SameEnd
      (((s.setDemand p demand).prepareSubsectors p prices).andThen
        (·.shareSubsectors p demand true))
      (((s.setDemand p demand).prepareSubsectors p prices).andThen
        (·.shareSubsectors p demand false)) :=
    (Run.SameEnd.of_eq rfl).andThen fun hoffers => (h.of_framed hprepared).sameEnd_shareSubsectors
      (h.fitFactor_eq hfit (failure_prepareSubsectors.1 hoffers))
  have hframed := Run.rel_state_andThen Framed.trans hprepared fun s : Sector n α =>
    s.framed_shareSubsectors (p := p) demand true
  have hproduce := (h.of_framed hframed).produce (Quantity.larger demand 0) true
  unfold calculate
  exact (hshared.andThen fun _ => .of_eq hproduce).andThen fun _ => .of_eq rfl

end SameEnd

end Sector

end NestedLogit
