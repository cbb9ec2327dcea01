import NestedLogit.Proofs.Sector.Uncalibrated

/-!
# Fixed supply that calibration scales to the demand

A sector that has nothing but fixed supply shares out a demand in proportion to it, whether it is
scaled to the demand before or not. Without calibration it is left as it is, unless it is too much.
If it falls short of the demand by more than the tolerance, its shares are scaled up to the whole
market, which comes to the same; if it falls short by less, everything that is produced falls short
by the same factor.

## Main definitions

- `Sector.shortfall` — that factor

## Main statements

- `Sector.ScaledToFit.succeeds_iff` — calibration does not decide about success
- `Sector.ScaledToFit.alike_calculate` — and makes no difference but for the factor
- `Sector.calculate_uncalibrated` — what calibration changes without calibration data
-/

namespace NestedLogit

variable {n : Nat} {α : Type} {p : Fin n}

open Series (At)

/-- Results of a sector that are the same but for the size of its output. -/
structure SectorResult.Scaled [Quantity α] (factor : α) (r r' : SectorResult α) : Prop where
  demand : r.demand = r'.demand
  price : r.price = r'.price
  output : r'.output = r.output * factor

/-- Sectors whose results of a period are the same but for a factor. -/
abbrev Sector.Scaled [Quantity α] (p : Fin n) (factor : α) : Sector n α → Sector n α → Prop :=
  Sector.Alike (At p (TechnologyResult.Scaled factor)) (At p (SubsectorResult.Scaled factor))
    (At p (SectorResult.Scaled factor))

namespace Sector

variable [ExactQuantity α] {s : Sector n α} {demand : α} {prices : GoodTable α} {calibrate : Bool}

section Results

/-- A sector with a subsector produces something if there is any demand. -/
theorem output_calculate_pos (hne : s.subsectors ≠ []) (hdemand : 0 < demand)
    (h : (s.calculate p demand prices calibrate).failure = none) :
    0 < (s.calculate p demand prices calibrate).state.results[p].output := by
  obtain ⟨cs, a, ha, hlen, houtput⟩ := output_calculate h
  have hcs : cs ≠ [] := by
    rintro rfl
    exact hne (List.length_eq_zero_iff.1 hlen.symm)
  have hshares := (abs_sub_le_iff.1 (sum_shares_allocate hcs ha)).2
  have htolerance : (Quantity.shareTolerance : α) < 1 := Quantity.shareTolerance_lt_one
  rw [houtput, max_eq_left hdemand.le]
  refine mul_pos ?_ hdemand
  linarith

/-- The output and the price of a calculated sector follow from its subsectors. -/
theorem results_calculate (h : (s.calculate p demand prices calibrate).failure = none) :
    let s' := (s.calculate p demand prices calibrate).state
    s'.results[p].output = Quantity.total (s'.subsectors.map fun x => x.results[p].output) ∧
      (0 < s'.results[p].output → s'.results[p].price = Quantity.total
        (s'.subsectors.map fun x => x.results[p].price * x.results[p].output)
          / s'.results[p].output) := by
  obtain ⟨-, -, -, hstate⟩ := calculate_eq_ok h
  intro s'
  have houtput : s'.results[p].output
      = Quantity.total (s'.subsectors.map fun x => x.results[p].output) := by
    dsimp only [s']
    rw [hstate]
    exact output_takeStock _
  refine ⟨houtput, fun hpos => ?_⟩
  rw [houtput] at hpos ⊢
  dsimp only [s'] at hpos ⊢
  rw [hstate] at hpos ⊢
  exact (price_takeStock _).trans (if_pos hpos)

/-- Two calculations of a sector are the same but for a factor if they are for each subsector. -/
theorem alike_calculate_of_subsectors {calibrate' : Bool} {factor : α} (hfactor : 0 < factor)
    (h : (s.calculate p demand prices calibrate).failure = none)
    (h' : (s.calculate p demand prices calibrate').failure = none)
    (hpos : 0 < (s.calculate p demand prices calibrate).state.results[p].output)
    (hsubsectors : List.Forall₂ (Subsector.Scaled p factor)
      (s.calculate p demand prices calibrate).state.subsectors
      (s.calculate p demand prices calibrate').state.subsectors) :
    (s.calculate p demand prices calibrate).state.Scaled p factor
      (s.calculate p demand prices calibrate').state := by
  have hframed := s.framed_calculate (p := p) demand prices calibrate
  have hframed' := s.framed_calculate (p := p) demand prices calibrate'
  obtain ⟨houtput, hprice⟩ := results_calculate h
  obtain ⟨houtput', hprice'⟩ := results_calculate h'
  have hscaled : (s.calculate p demand prices calibrate').state.results[p].output
      = (s.calculate p demand prices calibrate).state.results[p].output * factor := by
    rw [houtput, houtput']
    exact Subsector.total_scaled hsubsectors fun hx => hx.results.output
  refine ⟨hframed.id.symm.trans hframed'.id, hframed.regionId.symm.trans hframed'.regionId,
    hframed.good.symm.trans hframed'.good, hsubsectors,
    hframed.finalDemand.symm.trans hframed'.finalDemand, ⟨?_, ?_, hscaled⟩⟩
  · rw [demand_calculate h, demand_calculate h']
  · have hrevenue : ∀ {x x' : Subsector n α}, x.Scaled p factor x' →
        x'.results[p].price * x'.results[p].output
          = x.results[p].price * x.results[p].output * factor := fun {x x'} hx => by
      have hr : SubsectorResult.Scaled factor x.results[p] x'.results[p] := hx.results
      rw [hr.output, hr.price, mul_assoc]
    rw [hprice hpos, hprice' (hscaled ▸ mul_pos hpos hfactor), hscaled,
      Subsector.total_scaled hsubsectors hrevenue, mul_div_mul_right _ _ hfactor.ne']

end Results

/-- The factor by which a sector of fixed supply falls short of a demand without calibration. It is
one where the shares are scaled up to the whole market. -/
def shortfall (s : Sector n α) (p : Fin n) (demand : α) : α :=
  s.fixedOutputs p / servedMarket (s.fixedOutputs p) demand

namespace ScaledToFit

variable (h : s.ScaledToFit p demand)

include h

theorem demand_pos : 0 < demand := by
  have htolerance : (0 : α) < 1 + Quantity.shareTolerance :=
    add_pos zero_lt_one Quantity.shareTolerance_pos
  exact (mul_pos_iff_of_pos_right htolerance).1 (h.supply_pos.trans_le h.fits)

theorem shortfall_pos : 0 < s.shortfall p demand :=
  div_pos h.supply_pos (servedMarket_pos h.supply_pos h.demand_pos)

theorem supply_scaled : s.fixedOutputs p * (demand / s.fixedOutputs p) = demand :=
  mul_div_cancel₀ _ h.supply_pos.ne'

theorem scale_pos : 0 < demand / s.fixedOutputs p :=
  div_pos h.demand_pos h.supply_pos

theorem part_scaled (x : Subsector n α) :
    x.fixedOutputs p * (demand / s.fixedOutputs p) / demand
      = x.fixedOutputs p / s.fixedOutputs p := by
  rw [mul_div_assoc, div_div_cancel_left' h.demand_pos.ne', div_eq_mul_inv]

/-- With calibration every subsector has the share that it has of the fixed supply. -/
theorem suppliedShare_scaled (x : Subsector n α) :
    s.suppliedShare p demand (demand / s.fixedOutputs p) x
      = x.fixedOutputs p / s.fixedOutputs p := by
  rw [suppliedShare, h.supply_scaled, servedMarket_self, h.part_scaled]

/-- Without calibration it falls short of this share. -/
theorem suppliedShare_one (x : Subsector n α) :
    s.suppliedShare p demand 1 x
      = x.fixedOutputs p / s.fixedOutputs p * s.shortfall p demand := by
  rw [suppliedShare, mul_one, mul_one, shortfall, div_mul_div_cancel₀ h.supply_pos.ne']

theorem fitFactor_true (huncalibrated : s.Uncalibrated p)
    (hoffers : ∀ x ∈ s.subsectors, (x.offer p prices).failure = none) :
    (s.offering p demand prices).fitFactor p demand true = demand / s.fixedOutputs p := by
  have hframed := s.framed_offering (p := p) demand prices
  have hsupply := fixedSupply_offering demand hoffers
  rw [(huncalibrated.of_framed hframed).fitFactor_true (hframed.allFixed_iff.2 h.allFixed)
    h.demand_pos (hsupply ▸ h.supply_pos), hsupply]

theorem fitFactor_false (hoffers : ∀ x ∈ s.subsectors, (x.offer p prices).failure = none) :
    (s.offering p demand prices).fitFactor p demand false = 1 := by
  have hsupply := fixedSupply_offering demand hoffers
  rw [Sector.fitFactor_false _ h.demand_pos (hsupply ▸ h.supply_pos), hsupply,
    if_neg h.fits.not_gt]

/-- With calibration a calculation comes to its end if no share of the fixed supply is too large. -/
theorem calculate_true_succeeds_iff (huncalibrated : s.Uncalibrated p) :
    (s.calculate p demand prices true).failure = none ↔
      (∀ x ∈ s.subsectors, (x.offer p prices).failure = none) ∧
        ∀ x ∈ s.subsectors,
          (fixedContender p demand prices (demand / s.fixedOutputs p) x).Admissible := by
  have hsupply := h.supply_scaled
  have hfits : demand ≤ demand * (1 + Quantity.shareTolerance) :=
    le_mul_of_one_le_right h.demand_pos.le
      (le_add_of_nonneg_right Quantity.shareTolerance_pos.le)
  rw [calculate_succeeds_iff_of_allFixed h.allFixed h.demand_pos (hsupply.symm ▸ h.demand_pos)
    (h.fitFactor_true huncalibrated) h.scale_pos, hsupply,
    and_iff_left hfits]

/-- Without calibration it does if no part of the demand is too large that fixed supply covers. -/
theorem calculate_false_succeeds_iff :
    (s.calculate p demand prices false).failure = none ↔
      (∀ x ∈ s.subsectors, (x.offer p prices).failure = none) ∧
        ∀ x ∈ s.subsectors, (fixedContender p demand prices 1 x).Admissible := by
  have hsupply : 0 < s.fixedOutputs p * 1 := by rw [mul_one]; exact h.supply_pos
  rw [calculate_succeeds_iff_of_allFixed h.allFixed h.demand_pos hsupply
    h.fitFactor_false zero_lt_one, mul_one, and_iff_left h.fits]

/-- If the supply is not more than the demand, and the capacity limits leave room for it, success
does not depend on calibration. -/
theorem succeeds_iff (huncalibrated : s.Uncalibrated p)
    (hle : s.fixedOutputs p ≤ demand)
    (hroom : ∀ x ∈ s.subsectors, x.fixedOutputs p / s.fixedOutputs p
      ≤ x.parameters[p].capacityLimit + Quantity.shareTolerance) :
    (s.calculate p demand prices true).failure = none ↔
      (s.calculate p demand prices false).failure = none := by
  have hdemand := h.demand_pos
  rw [h.calculate_true_succeeds_iff huncalibrated, h.calculate_false_succeeds_iff]
  refine and_congr_right fun _ => ?_
  simp only [admissible_fixedContender_iff, mul_one, h.part_scaled]
  constructor
  · intro hshares x hx
    obtain ⟨hlimit, hnonneg, hone, hfits⟩ := hshares x hx
    have hpart : 0 ≤ x.fixedOutputs p := by
      rwa [le_div_iff₀ h.supply_pos, zero_mul] at hnonneg
    have hless : x.fixedOutputs p / demand ≤ x.fixedOutputs p / s.fixedOutputs p :=
      div_le_div_of_nonneg_left hpart h.supply_pos hle
    exact ⟨hlimit, div_nonneg hpart hdemand.le, hless.trans hone, hless.trans hfits⟩
  · intro hparts x hx
    have hpart : ∀ x ∈ s.subsectors, 0 ≤ x.fixedOutputs p := by
      intro x hx
      obtain ⟨-, hnonneg, -⟩ := hparts x hx
      rwa [le_div_iff₀ hdemand, zero_mul] at hnonneg
    have hsingle : x.fixedOutputs p ≤ s.fixedOutputs p := by
      rw [h.allFixed.fixedOutputs_eq]
      exact List.single_le_sum (List.forall_mem_map.2 hpart) _ (List.mem_map_of_mem hx)
    exact ⟨(hparts x hx).1, div_nonneg (hpart x hx) h.supply_pos.le,
      (div_le_one h.supply_pos).2 hsingle, hroom x hx⟩

/-- Where a calculation comes to its end with calibration and without, they differ in nothing but
the size of what is produced. -/
theorem alike_calculate (huncalibrated : s.Uncalibrated p)
    (hfixed : ∀ t ∈ s.technologies, ∀ fixed, t.parameters[p].fixedOutput = some fixed → 0 ≤ fixed)
    (hon : (s.calculate p demand prices true).failure = none)
    (hoff : (s.calculate p demand prices false).failure = none) :
    (s.calculate p demand prices true).state.Scaled p (s.shortfall p demand)
      (s.calculate p demand prices false).state := by
  have hdemand := h.demand_pos
  have hscaled : 0 < s.fixedOutputs p * (demand / s.fixedOutputs p) :=
    mul_pos h.supply_pos h.scale_pos
  have hunscaled : 0 < s.fixedOutputs p * 1 := mul_pos h.supply_pos zero_lt_one
  obtain ⟨-, hadmitted⟩ := (h.calculate_true_succeeds_iff huncalibrated).1 hon
  obtain ⟨-, hadmitted'⟩ := h.calculate_false_succeeds_iff.1 hoff
  refine alike_calculate_of_subsectors h.shortfall_pos hon hoff
    (output_calculate_pos (h.allFixed.subsectors_ne_nil h.supply_pos.ne') hdemand hon) ?_
  rw [subsectors_calculate_of_allFixed h.allFixed hdemand hscaled
      (h.fitFactor_true huncalibrated) hon,
    subsectors_calculate_of_allFixed h.allFixed hdemand hunscaled
      h.fitFactor_false hoff,
    List.forall₂_map_left_iff, List.forall₂_map_right_iff, List.forall₂_same]
  intro x hx
  obtain ⟨multiple, houtput, hserved⟩ := serveShare_assigned hdemand h.scale_pos hscaled
    (h.allFixed x hx) (hadmitted x hx) true
  obtain ⟨multiple', houtput', hserved'⟩ := serveShare_assigned hdemand zero_lt_one hunscaled
    (h.allFixed x hx) (hadmitted' x hx) false
  have hframed := x.framed_offer (p := p) prices
  rw [hserved, hserved']
  rw [h.suppliedShare_scaled] at houtput ⊢
  rw [h.suppliedShare_one, mul_right_comm] at houtput'
  rw [h.suppliedShare_one, mul_right_comm _ (s.shortfall p demand)]
  refine Subsector.assigned_scaled (hframed.isAllFixed ▸ h.allFixed x hx)
    (hframed.fixed_nonneg fun t ht => hfixed t (List.mem_flatMap.2 ⟨x, hx, ht⟩)) h.shortfall_pos
    ?_ ?_
  · rw [hframed.fixedOutputs, houtput]
  · rw [hframed.fixedOutputs, houtput']

end ScaledToFit

/-- Without calibration data, calibration makes no difference to a calculation, unless it scales the
fixed supply of a sector that has nothing else to the demand. Then it makes no difference to shares
within subsectors, costs and prices, and what is produced differs by one factor, which is one where
the supply falls short of the demand by more than the tolerance. -/
theorem calculate_uncalibrated (h : s.Uncalibrated p) :
    (¬s.ScaledToFit p demand →
      (s.calculate p demand prices true).state = (s.calculate p demand prices false).state ∧
        (s.calculate p demand prices true).failure
          = (s.calculate p demand prices false).failure) ∧
      (s.ScaledToFit p demand →
        (s.fixedOutputs p ≤ demand →
          (∀ x ∈ s.subsectors, x.fixedOutputs p / s.fixedOutputs p
            ≤ x.parameters[p].capacityLimit + Quantity.shareTolerance) →
          ((s.calculate p demand prices true).failure = none ↔
            (s.calculate p demand prices false).failure = none)) ∧
        ((∀ t ∈ s.technologies, ∀ fixed,
            t.parameters[p].fixedOutput = some fixed → 0 ≤ fixed) →
          (s.calculate p demand prices true).failure = none →
          (s.calculate p demand prices false).failure = none →
          (s.calculate p demand prices true).state.Scaled p (s.shortfall p demand)
            (s.calculate p demand prices false).state) ∧
        (s.fixedOutputs p < demand * (1 - Quantity.shareTolerance) →
          s.shortfall p demand = 1)) := by
  refine ⟨fun hfit => ?_, fun hfit => ⟨?_, ?_, ?_⟩⟩
  · have hend := h.sameEnd_calculate hfit prices
    exact ⟨hend.state, hend.failure⟩
  · exact hfit.succeeds_iff h
  · exact hfit.alike_calculate h
  · intro hshort
    rw [shortfall, servedMarket, if_pos hshort, div_self hfit.supply_pos.ne']

/-- A sector with a dam that falls short of a demand of one hundred by less than the tolerance. -/
def nearlyFullSector : Sector 1 ℚ :=
  let dam : Technology 1 ℚ :=
    { Technology.new 1 ⟨"dam"⟩ none with
      parameters := Series.const 1
        { TechnologyParameters.default with
          nonEnergyCost := 1
          fixedOutput := some (9999999995 / 100000000) } }
  let hydro : Subsector 1 ℚ :=
    { (Subsector.new 1 ⟨⟨"island"⟩, ⟨"power"⟩, ⟨"hydro"⟩⟩ : Subsector 1 ℚ) with
      technologies := [dam] }
  { (Sector.new 1 ⟨⟨"island"⟩, ⟨"power"⟩⟩ : Sector 1 ℚ) with subsectors := [hydro] }

theorem uncalibrated_nearlyFullSector : nearlyFullSector.Uncalibrated 0 := by
  unfold Uncalibrated
  decide

theorem nearlyFullSector_succeeds (calibrate : Bool) :
    (nearlyFullSector.calculate 0 100 .empty calibrate).failure = none := by
  cases calibrate <;> exact Option.isNone_iff_eq_none.1 (by decide +kernel)

theorem nearlyFullSector_uncalibrated :
    (nearlyFullSector.Uncalibrated 0 ∧
        ¬nearlyFullSector.ScaledToFit 0 50 ∧ nearlyFullSector.ScaledToFit 0 100 ∧
        (∀ t ∈ nearlyFullSector.technologies, ∀ fixed,
          t.parameters[(0 : Fin 1)].fixedOutput = some fixed → 0 ≤ fixed) ∧
        (nearlyFullSector.calculate 0 100 .empty true).failure = none ∧
        (nearlyFullSector.calculate 0 100 .empty false).failure = none) ∧
      ((nearlyFullSector.calculate 0 50 .empty true).state
          = (nearlyFullSector.calculate 0 50 .empty false).state ∧
        (nearlyFullSector.calculate 0 50 .empty true).failure
          = (nearlyFullSector.calculate 0 50 .empty false).failure) ∧
      (nearlyFullSector.calculate 0 100 .empty true).state.Scaled 0
        (nearlyFullSector.shortfall 0 100)
        (nearlyFullSector.calculate 0 100 .empty false).state := by
  have hsupply : nearlyFullSector.fixedOutputs 0 = 9999999995 / 100000000 := by decide +kernel
  have hsurplus : ¬nearlyFullSector.ScaledToFit 0 50 := fun hfit => by
    have hfits := hfit.fits
    rw [hsupply, Quantity.shareTolerance, Quantity.whole_eq_cast] at hfits
    norm_num at hfits
  have hfit : nearlyFullSector.ScaledToFit 0 100 := by
    refine ⟨by unfold AllFixed; decide, ?_, ?_, ?_⟩ <;> rw [hsupply]
    · norm_num
    · rw [Quantity.shareTolerance, Quantity.whole_eq_cast]
      norm_num
    · norm_num
  have hfixed : ∀ t ∈ nearlyFullSector.technologies, ∀ fixed,
      t.parameters[(0 : Fin 1)].fixedOutput = some fixed → 0 ≤ fixed := by
    refine List.forall_mem_singleton.2 ?_
    rw [Series.getElem_const]
    rintro _ ⟨⟩
    norm_num
  have hon := nearlyFullSector_succeeds true
  have hoff := nearlyFullSector_succeeds false
  exact ⟨⟨uncalibrated_nearlyFullSector, hsurplus, hfit, hfixed, hon, hoff⟩,
    (calculate_uncalibrated uncalibrated_nearlyFullSector).1 hsurplus,
    ((calculate_uncalibrated uncalibrated_nearlyFullSector).2 hfit).2.1 hfixed hon hoff⟩

/-- With calibration the dam serves the whole demand, and without it falls short. -/
theorem nearlyFullSector_differs :
    nearlyFullSector.Uncalibrated 0 ∧
      (nearlyFullSector.calculate 0 100 .empty true).failure = none ∧
      (nearlyFullSector.calculate 0 100 .empty false).failure = none ∧
      ((nearlyFullSector.calculate 0 100 .empty true).state.technologies.map fun t =>
        t.results[(0 : Fin 1)].output) = [100] ∧
      ((nearlyFullSector.calculate 0 100 .empty false).state.technologies.map fun t =>
        t.results[(0 : Fin 1)].output) = [9999999995 / 100000000] ∧
      ((nearlyFullSector.calculate 0 100 .empty true).state.subsectors.map fun x =>
          x.results[(0 : Fin 1)].share)
        ≠ (nearlyFullSector.calculate 0 100 .empty false).state.subsectors.map fun x =>
          x.results[(0 : Fin 1)].share :=
  ⟨uncalibrated_nearlyFullSector, nearlyFullSector_succeeds true, nearlyFullSector_succeeds false,
    by decide +kernel, by decide +kernel, by decide +kernel⟩

end Sector

end NestedLogit
