import NestedLogit.Proofs.Choice.Conservation
import NestedLogit.Proofs.Frame
import NestedLogit.Proofs.History.Sector
import NestedLogit.Proofs.Subsector.Output

/-!
# What a sector supplies

A sector that is calculated for a demand gives each subsector its share of the demand to produce,
and a subsector produces what it is asked for or refuses. As the shares add up to one, the sector
supplies what is demanded, with one exception: a sector without subsectors has nobody to refuse, and
its calculation ends without an output.

## Main statements

- `Subsector.output_setOutput` — a subsector produces what it is asked for
- `Sector.output_calculate` — the output of a sector is the demand times the sum of the shares
- `Sector.calculate_serves_iff` — demand is met exactly if there is a subsector or no demand

## Design notes

A demand is met if the output differs from it by no more than the tolerance for shares, relative to
the demand.
-/

namespace NestedLogit

variable {n : Nat} {α : Type} {p : Fin n}

namespace Subsector

variable [Quantity α]

/-- A subsector whose fixed outputs are scaled by a given factor. -/
def withScale (s : Subsector n α) (p : Fin n) (scale : α) : Subsector n α :=
  s.update p fun r => { r with fixedSupplyScale := scale }

omit [Quantity α] in
theorem withScale_self (s : Subsector n α) : s.withScale p s.results[p].fixedSupplyScale = s := by
  rw [withScale, update, Series.modify_eq_self rfl]

theorem scaleFixedSupply_withScale (s : Subsector n α) (scale factor : α) :
    (s.withScale p scale).scaleFixedSupply p factor = s.withScale p (scale * factor) := by
  simp only [withScale, scaleFixedSupply, update, Series.modify_modify]

theorem scaleFixedSupply_eq_withScale (s : Subsector n α) (factor : α) :
    s.scaleFixedSupply p factor = s.withScale p (s.results[p].fixedSupplyScale * factor) := by
  rw [← scaleFixedSupply_withScale, withScale_self]

theorem fitFixedSupply_eq_withScale (s : Subsector n α) (output : α) (calibrate : Bool) :
    ∃ scale, s.fitFixedSupply p output calibrate = s.withScale p scale := by
  unfold fitFixedSupply
  split
  · exact ⟨_, s.scaleFixedSupply_eq_withScale _⟩
  · exact ⟨_, s.withScale_self.symm⟩

/-- A subsector that does not refuse an output has scaled its fixed supply somehow and serves the
output. -/
theorem exists_serve_of_ok {s : Subsector n α} {output : α} {calibrate : Bool}
    (h : (s.setOutput p output calibrate).failure = none) :
    ∃ scale, s.setOutput p output calibrate
      = (s.withScale p scale).serve p output calibrate := by
  obtain ⟨scale, hfit⟩ := s.fitFixedSupply_eq_withScale (p := p) output calibrate
  unfold setOutput at h ⊢
  rw [hfit] at h ⊢
  dsimp only at h ⊢
  split at h
  · cases h
  · next hnonneg =>
    rw [if_neg hnonneg]
    split at h
    · next hscale =>
      rw [if_pos hscale, scaleFixedSupply_withScale]
      exact ⟨_, rfl⟩
    · next hscale =>
      rw [if_neg hscale]
      split at h
      · next hserve =>
        rw [if_pos hserve]
        exact ⟨_, rfl⟩
      · cases h

/-- What becomes of an output that is served: the technologies are recalibrated if calibration is
on, and produce what fixed supply leaves. -/
theorem serve_eq_ok {s : Subsector n α} {output : α} {calibrate : Bool}
    (h : (s.serve p output calibrate).failure = none) :
    let variableOutput := Quantity.larger (output - s.fixedSupply p) 0
    let ready := if calibrate then s.recalibrateTechnologies p variableOutput else .ok s
    ready.failure = none ∧
      (s.serve p output calibrate).state
        = (ready.state.produce p variableOutput).takeStock p output := by
  obtain ⟨hready, -⟩ := Run.failure_andThen.1 h
  exact ⟨hready, Run.state_andThen hready _⟩

/-- What taking stock changes of the results: the sums over the technologies, and the price. -/
theorem results_takeStock (s : Subsector n α) (output : α) :
    ∃ price fuelPrice input emissions carbonTaxPaid, (s.takeStock p output).results[p] =
      { s.results[p] with output, price, fuelPrice, input, emissions, carbonTaxPaid } := by
  unfold takeStock
  dsimp only
  split <;>
    simp only [mapTechnologies, calculateEmissions, update, Series.getElem_modify_self] <;>
    exact ⟨_, _, _, _, _, rfl⟩

/-- Serving an output changes no more of the results than taking stock. -/
theorem results_serve {s : Subsector n α} {output : α} {calibrate : Bool}
    (h : (s.serve p output calibrate).failure = none) :
    ∃ price fuelPrice input emissions carbonTaxPaid,
      (s.serve p output calibrate).state.results[p] =
        { s.results[p] with output, price, fuelPrice, input, emissions, carbonTaxPaid } := by
  obtain ⟨-, hstate⟩ := serve_eq_ok h
  have hready : ∀ variableOutput : α, (if calibrate then s.recalibrateTechnologies p variableOutput
      else Run.ok s).state.results = s.results := by
    intro variableOutput
    split
    · exact s.results_recalibrateTechnologies variableOutput
    · rfl
  rw [hstate, ← hready]
  exact results_takeStock _ _

/-- Nor does producing one, apart from the scale of the fixed supply. -/
theorem results_setOutput {s : Subsector n α} {output : α} {calibrate : Bool}
    (h : (s.setOutput p output calibrate).failure = none) :
    ∃ fixedSupplyScale price fuelPrice input emissions carbonTaxPaid,
      (s.setOutput p output calibrate).state.results[p] =
        { s.results[p] with
          fixedSupplyScale, output, price, fuelPrice, input, emissions, carbonTaxPaid } := by
  obtain ⟨scale, hserve⟩ := exists_serve_of_ok h
  rw [hserve] at h ⊢
  obtain ⟨_, _, _, _, _, hresults⟩ := results_serve h
  rw [hresults]
  simp only [withScale, update, Series.getElem_modify_self]
  exact ⟨_, _, _, _, _, _, rfl⟩

/-- A subsector that does not refuse produces what it is asked for. -/
theorem output_setOutput {s : Subsector n α} {output : α} {calibrate : Bool}
    (h : (s.setOutput p output calibrate).failure = none) :
    (s.setOutput p output calibrate).state.results[p].output = output := by
  obtain ⟨_, _, _, _, _, _, hresults⟩ := results_setOutput h
  rw [hresults]

theorem share_setOutput {s : Subsector n α} {output : α} {calibrate : Bool}
    (h : (s.setOutput p output calibrate).failure = none) :
    (s.setOutput p output calibrate).state.results[p].share = s.results[p].share := by
  obtain ⟨_, _, _, _, _, _, hresults⟩ := results_setOutput h
  rw [hresults]

end Subsector

namespace Sector

section Steps

variable [Quantity α]

/-- The shares of the subsectors are those of an allocation between as many contenders. -/
theorem shares_shareSubsectors {s : Sector n α} {demand : α} {calibrate : Bool}
    (h : (s.shareSubsectors p demand calibrate).failure = none) :
    ∃ cs a, allocate cs = .ok a ∧ cs.length = s.subsectors.length ∧
      ((s.shareSubsectors p demand calibrate).state.subsectors.map fun x => x.results[p].share)
        = a.shares := by
  have hframed := s.framed_fitted (p := p) demand calibrate
  obtain ⟨⟨fit, log⟩, hfit⟩ : ∃ x, s.fitted p demand calibrate = x := ⟨_, rfl⟩
  rw [hfit] at hframed
  obtain ⟨a, ho, hshared⟩ := shareSubsectors_eq_ok hfit h
  obtain ⟨hallocate, hlen⟩ := allocateAims_allocates ho
  rw [length_aims, ← hframed.subsectors.length_eq] at hlen
  refine ⟨_, a, hallocate, hlen, ?_⟩
  rw [hshared, ← shares_decided ho]
  exact shares_awardEach (by rw [length_decided ho, length_aims])

theorem outputs_produce {s : Sector n α} {output : α} {calibrate : Bool}
    (h : (s.produce p output calibrate).failure = none) :
    ((s.produce p output calibrate).state.subsectors.map fun x => x.results[p].output)
      = (s.subsectors.map fun x => x.results[p].share).map (· * output) := by
  have heach := Run.failure_map _ _ ▸ h
  rw [produce, Run.state_map, Run.state_each heach, List.map_map, List.map_map]
  exact List.map_congr_left fun x hx => Subsector.output_setOutput (Run.failure_each.1 heach x hx)

/-- Producing an output does not change the shares of the subsectors. -/
theorem shares_produce {s : Sector n α} {output : α} {calibrate : Bool}
    (h : (s.produce p output calibrate).failure = none) :
    ((s.produce p output calibrate).state.subsectors.map fun x => x.results[p].share)
      = s.subsectors.map fun x => x.results[p].share := by
  have heach := Run.failure_map _ _ ▸ h
  rw [produce, Run.state_map, Run.state_each heach, List.map_map]
  exact List.map_congr_left fun x hx => Subsector.share_setOutput (Run.failure_each.1 heach x hx)

theorem output_takeStock (s : Sector n α) :
    (s.takeStock p).results[p].output
      = Quantity.total (s.subsectors.map fun x => x.results[p].output) := by
  simp [takeStock, update]

/-- A calculation that comes to its end has prepared the subsectors, shared out the demand between
them, had them produce, and taken stock. -/
theorem calculate_eq_ok {s : Sector n α} {demand : α} {prices : GoodTable α} {calibrate : Bool}
    (h : (s.calculate p demand prices calibrate).failure = none) :
    let prepared := (s.setDemand p demand).prepareSubsectors p prices
    let shared := prepared.state.shareSubsectors p demand calibrate
    let produced := shared.state.produce p (Quantity.larger demand 0) calibrate
    prepared.failure = none ∧ shared.failure = none ∧ produced.failure = none ∧
      (s.calculate p demand prices calibrate).state = produced.state.takeStock p := by
  obtain ⟨hproduce, -⟩ := Run.failure_andThen.1 h
  obtain ⟨hshare, hproduced⟩ := Run.failure_andThen.1 hproduce
  obtain ⟨hprepare, hshared⟩ := Run.failure_andThen.1 hshare
  rw [Run.state_andThen hprepare] at hproduced
  refine ⟨hprepare, hshared, hproduced, ?_⟩
  rw [calculate, Run.state_andThen hproduce, Run.state_andThen hshare,
    Run.state_andThen hprepare]
  rfl

/-- What is reported of the steps is reported one after another. -/
theorem log_calculate {s : Sector n α} {demand : α} {prices : GoodTable α} {calibrate : Bool}
    (h : (s.calculate p demand prices calibrate).failure = none) :
    let prepared := (s.setDemand p demand).prepareSubsectors p prices
    let shared := prepared.state.shareSubsectors p demand calibrate
    let produced := shared.state.produce p (Quantity.larger demand 0) calibrate
    (s.calculate p demand prices calibrate).log = prepared.log ++ shared.log ++ produced.log := by
  obtain ⟨hproduce, -⟩ := Run.failure_andThen.1 h
  obtain ⟨hshare, -⟩ := Run.failure_andThen.1 hproduce
  obtain ⟨hprepare, -⟩ := Run.failure_andThen.1 hshare
  rw [calculate, Run.log_andThen hproduce, Run.log_andThen hshare, Run.log_andThen hprepare,
    Run.state_andThen hshare, Run.state_andThen hprepare]
  exact List.append_nil _

theorem results_shareSubsectors (s : Sector n α) (demand : α) (calibrate : Bool) :
    (s.shareSubsectors p demand calibrate).state.results = s.results := by
  have hresults := s.results_fitted (p := p) demand calibrate
  obtain ⟨⟨fit, log⟩, hfit⟩ : ∃ x, s.fitted p demand calibrate = x := ⟨_, rfl⟩
  rw [hfit] at hresults
  cases ho : (allocateAims (fit.aims p demand calibrate)).outcome with
  | error e =>
    rw [shareSubsectors_of_error hfit ho]
    exact hresults
  | ok a =>
    rw [shareSubsectors_of_ok hfit ho]
    exact hresults

/-- A sector keeps the demand that it is calculated for. -/
theorem demand_calculate {s : Sector n α} {demand : α} {prices : GoodTable α} {calibrate : Bool}
    (h : (s.calculate p demand prices calibrate).failure = none) :
    (s.calculate p demand prices calibrate).state.results[p].demand = demand := by
  obtain ⟨-, -, -, hstate⟩ := calculate_eq_ok h
  rw [hstate]
  have hresults := results_shareSubsectors (p := p)
    ((s.setDemand p demand).prepareSubsectors p prices).state demand calibrate
  simp only [takeStock, update, produce, Run.state_map, hresults, Series.getElem_modify_self]
  simp [prepareSubsectors, setDemand, update]

end Steps

variable [ExactQuantity α]

/-- The output of a sector is the demand times the sum of the shares of an allocation between as
many contenders as there are subsectors. -/
theorem output_calculate {s : Sector n α} {demand : α} {prices : GoodTable α} {calibrate : Bool}
    (h : (s.calculate p demand prices calibrate).failure = none) :
    ∃ cs a, allocate cs = .ok a ∧ cs.length = s.subsectors.length ∧
      (s.calculate p demand prices calibrate).state.results[p].output
        = a.shares.sum * max demand 0 := by
  obtain ⟨-, hshared, hproduced, hstate⟩ := calculate_eq_ok h
  obtain ⟨cs, a, ha, hlen, hshares⟩ := shares_shareSubsectors hshared
  have hprepared := ((s.setDemand p demand).framed_prepareSubsectors (p := p) prices).subsectors
  refine ⟨cs, a, ha, hlen.trans hprepared.length_eq.symm, ?_⟩
  rw [hstate, output_takeStock, outputs_produce hproduced, hshares, Quantity.total_eq_sum,
    List.sum_map_mul_right, List.map_id', Quantity.larger_eq_max]

/-- A sector that has a subsector supplies the demand but for the tolerance. -/
theorem abs_output_sub_demand_le {s : Sector n α} {demand : α} {prices : GoodTable α}
    {calibrate : Bool} (hdemand : 0 ≤ demand) (hsome : s.subsectors ≠ [])
    (h : (s.calculate p demand prices calibrate).failure = none) :
    |(s.calculate p demand prices calibrate).state.results[p].output - demand|
      ≤ Quantity.shareTolerance * demand := by
  obtain ⟨cs, a, ha, hlen, houtput⟩ := output_calculate h
  have hne : cs ≠ [] := by
    rintro rfl
    exact hsome (List.length_eq_zero_iff.1 hlen.symm)
  rw [houtput, max_eq_left hdemand]
  calc |a.shares.sum * demand - demand|
      = |a.shares.sum - 1| * demand := by
        rw [← sub_one_mul, abs_mul, abs_of_nonneg hdemand]
    _ ≤ Quantity.shareTolerance * demand :=
        mul_le_mul_of_nonneg_right (sum_shares_allocate hne ha) hdemand

/-- Where the calculation of a sector comes to its end, demand is met exactly if the sector has a
subsector, unless nothing is demanded. -/
theorem calculate_serves_iff {s : Sector n α} {demand : α} {prices : GoodTable α}
    {calibrate : Bool} (hdemand : 0 ≤ demand)
    (h : (s.calculate p demand prices calibrate).failure = none) :
    |(s.calculate p demand prices calibrate).state.results[p].output - demand|
        ≤ Quantity.shareTolerance * demand ↔ s.subsectors ≠ [] ∨ demand = 0 := by
  obtain ⟨cs, a, ha, hlen, houtput⟩ := output_calculate h
  rw [houtput, max_eq_left hdemand]
  by_cases hempty : s.subsectors = []
  · -- Without contenders there are no shares, and the output falls short by the whole demand.
    have hnil : cs = [] := List.length_eq_zero_iff.1 (by rw [hlen, hempty, List.length_nil])
    subst hnil
    cases ha
    have htolerance : (Quantity.shareTolerance : α) < 1 := Quantity.shareTolerance_lt_one
    simp only [Allocation.shares, List.map_nil, List.sum_nil, zero_mul, zero_sub, abs_neg,
      abs_of_nonneg hdemand, hempty, ne_eq, not_true_eq_false, false_or]
    constructor
    · intro hle
      by_contra hne
      have hpos : 0 < demand := hdemand.lt_of_ne (Ne.symm hne)
      exact absurd hle (not_le.2 (mul_lt_of_lt_one_left hpos htolerance))
    · rintro rfl
      simp
  · refine iff_of_true ?_ (.inl hempty)
    have hnear := abs_output_sub_demand_le hdemand hempty h
    rwa [houtput, max_eq_left hdemand] at hnear

/-- A sector with one subsector, whose only technology needs no fuel. -/
def windSector : Sector 1 ℚ :=
  let wind : Subsector 1 ℚ :=
    { (Subsector.new 1 ⟨⟨"island"⟩, ⟨"power"⟩, ⟨"wind"⟩⟩ : Subsector 1 ℚ) with
      technologies := [Technology.new 1 ⟨"turbine"⟩ none] }
  { (Sector.new 1 ⟨⟨"island"⟩, ⟨"power"⟩⟩ : Sector 1 ℚ) with subsectors := [wind] }

theorem windSector_serves_iff :
    (0 ≤ (6 : ℚ) ∧ (windSector.calculate 0 6 .empty true).failure = none) ∧
      (|(windSector.calculate 0 6 .empty true).state.results[(0 : Fin 1)].output - 6|
        ≤ Quantity.shareTolerance * 6 ↔ windSector.subsectors ≠ [] ∨ (6 : ℚ) = 0) := by
  have hdemand : 0 ≤ (6 : ℚ) := by norm_num
  have h : (windSector.calculate 0 6 .empty true).failure = none := by decide +kernel
  exact ⟨⟨hdemand, h⟩, calculate_serves_iff hdemand h⟩

/-- A sector without subsectors. -/
def emptySector : Sector 1 ℚ :=
  Sector.new 1 ⟨⟨"island"⟩, ⟨"heat"⟩⟩

/-- A sector without subsectors leaves a demand unserved and reports no error. -/
theorem emptySector_serves_nothing :
    (emptySector.calculate 0 10 .empty false).failure = none ∧
      (emptySector.calculate 0 10 .empty false).state.results[(0 : Fin 1)].output = 0 ∧
      ¬|(emptySector.calculate 0 10 .empty false).state.results[(0 : Fin 1)].output - 10|
        ≤ Quantity.shareTolerance * 10 := by
  have hfailure : (emptySector.calculate 0 10 .empty false).failure = none := by decide +kernel
  have houtput :
      (emptySector.calculate 0 10 .empty false).state.results[(0 : Fin 1)].output = 0 := by decide +kernel
  refine ⟨hfailure, houtput, ?_⟩
  rw [houtput, Quantity.shareTolerance, Quantity.whole_eq_cast]
  norm_num

end Sector

end NestedLogit
