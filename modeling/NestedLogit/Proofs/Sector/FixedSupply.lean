import NestedLogit.Proofs.Choice.FixedShares
import NestedLogit.Proofs.Sector.Course
import NestedLogit.Proofs.Subsector.Scaled

/-!
# Sectors that have nothing but fixed supply

If every subsector is all-fixed, nobody competes for a demand. Each subsector is awarded the part of
the market that its fixed outputs serve, whatever it costs, and produces a multiple of them. How the
fixed supply was scaled before decides only how large the market is that it serves.

## Main definitions

- `Sector.fixedOutputs` — the fixed outputs of the subsectors that have nothing else
- `Sector.AllFixed` — there is nothing else
- `Sector.suppliedShare` — the share that is awarded to a subsector then
- `Sector.fixedContender` — a subsector as it contends with fixed outputs

## Main statements

- `Sector.fixedSupply_offering` — before it is scaled, fixed supply is what is given
- `Sector.calculate_succeeds_iff_of_allFixed` — when a calculation comes to its end
- `Sector.subsectors_calculate_of_allFixed` — and what becomes of the subsectors
-/

namespace NestedLogit

variable {n : Nat} {α : Type} {p : Fin n} [ExactQuantity α]

namespace Subsector

/-- Fixed outputs are an input. -/
theorem Framed.fixedOutputs {s s' : Subsector n α} (h : s.Framed p s') :
    s'.fixedOutputs p = s.fixedOutputs p :=
  congrArg List.sum (map_eq_of_forall₂ h.technologies fun ht => by rw [ht.parameters]).symm

omit [ExactQuantity α] in
theorem isCalibratable_of_isAllFixed {s : Subsector n α} (h : s.isAllFixed p = true) :
    s.isCalibratable p = false := by
  simp [isCalibratable, variableTechnologies_of_isAllFixed h]

theorem fixedSupply_offer {s : Subsector n α} {prices : GoodTable α}
    (h : (s.offer p prices).failure = none) :
    (s.offer p prices).state.fixedSupply p = s.fixedOutputs p := by
  rw [fixedSupply_eq_sum, fixedSupplyScale_offer h, mul_one]
  exact (s.framed_offer prices).fixedOutputs

end Subsector

namespace Sector

variable {s : Sector n α} {demand scale : α} {prices : GoodTable α} {calibrate : Bool}

/-- The fixed outputs of the subsectors that have nothing else, before any scaling. -/
def fixedOutputs (s : Sector n α) (p : Fin n) : α :=
  ((s.subsectors.filter (·.isAllFixed p)).map (·.fixedOutputs p)).sum

/-- With the offers, fixed supply is back to what is given. -/
theorem fixedSupply_offering (demand : α)
    (h : ∀ x ∈ s.subsectors, (x.offer p prices).failure = none) :
    (s.offering p demand prices).fixedSupply p = s.fixedOutputs p := by
  rw [fixedSupply, fixedOutputs, Quantity.total_eq_sum, subsectors_offering h, List.filter_map,
    List.map_map]
  have hfixed : s.subsectors.filter (fun x => x.isAllFixed p)
      = s.subsectors.filter ((fun x => x.isAllFixed p) ∘ fun x => (x.offer p prices).state) :=
    List.filter_congr fun x _ => (x.framed_offer prices).isAllFixed
  rw [hfixed]
  refine congrArg List.sum (List.map_congr_left fun x hx => ?_)
  exact Subsector.fixedSupply_offer (h x (List.mem_filter.1 hx).1)

/-- Every subsector has technologies, and nothing but fixed ones. -/
def AllFixed (p : Fin n) (s : Sector n α) : Prop :=
  ∀ x ∈ s.subsectors, x.isAllFixed p = true

omit [ExactQuantity α] in
theorem Framed.allFixed_iff {s' : Sector n α} (h : s.Framed p s') :
    s'.AllFixed p ↔ s.AllFixed p := by
  unfold AllFixed
  rw [← List.all_eq_true, ← List.all_eq_true,
    all_eq_of_forall₂ h.subsectors fun hx => hx.isAllFixed]

theorem AllFixed.fixedOutputs_eq (h : s.AllFixed p) :
    s.fixedOutputs p = (s.subsectors.map (·.fixedOutputs p)).sum := by
  rw [fixedOutputs, List.filter_eq_self.2 h]

theorem AllFixed.sum_scaled (h : s.AllFixed p) (scale : α) :
    (s.subsectors.map fun x => x.fixedOutputs p * scale).sum = s.fixedOutputs p * scale := by
  rw [h.fixedOutputs_eq, List.sum_map_mul_right]

theorem AllFixed.subsectors_ne_nil (h : s.AllFixed p) (hsupply : s.fixedOutputs p ≠ 0) :
    s.subsectors ≠ [] := by
  intro hnil
  refine hsupply ?_
  rw [h.fixedOutputs_eq, hnil, List.map_nil, List.sum_nil]

/-- A subsector whose output calibration data do not determine has no target. -/
theorem targetShare_eq_none {x : Subsector n α} (h : x.isCalibratable p = false) (demand : α)
    (calibrate : Bool) : targetShare p demand calibrate x = none := by
  rw [← Option.not_isSome_iff_eq_none, isSome_targetShare, h, Bool.and_false]
  exact Bool.false_ne_true

/-- The part of the market that is awarded to a subsector for its fixed outputs at a scale. -/
def suppliedShare (s : Sector n α) (p : Fin n) (demand scale : α) (x : Subsector n α) : α :=
  x.fixedOutputs p * scale / servedMarket (s.fixedOutputs p * scale) demand

/-- A subsector that offered its price, as it contends with fixed outputs at a scale. -/
def fixedContender (p : Fin n) (demand : α) (prices : GoodTable α) (scale : α)
    (x : Subsector n α) : Contender α :=
  { (x.offer p prices).state.contender p with
    fixedShare := some (x.fixedOutputs p * scale / demand) }

theorem admissible_fixedContender_iff {x : Subsector n α} :
    (fixedContender p demand prices scale x).Admissible ↔
      (0 ≤ x.parameters[p].capacityLimit ∧ x.parameters[p].capacityLimit ≤ 1) ∧
        0 ≤ x.fixedOutputs p * scale / demand ∧ x.fixedOutputs p * scale / demand ≤ 1 ∧
          x.fixedOutputs p * scale / demand
            ≤ x.parameters[p].capacityLimit + Quantity.shareTolerance := by
  have hlimit : (fixedContender p demand prices scale x).capacityLimit
      = x.parameters[p].capacityLimit := by
    rw [(x.framed_offer (p := p) prices).parameters]
    rfl
  constructor
  · rintro ⟨hnonneg, hone, hfixed, hwhole, hfits⟩
    rw [hlimit] at hnonneg hone hfits
    exact ⟨⟨hnonneg, hone⟩, hfixed _ rfl, hwhole _ rfl, hfits _ rfl⟩
  · rintro ⟨⟨hnonneg, hone⟩, hfixed, hwhole, hfits⟩
    rw [← hlimit] at hnonneg hone hfits
    refine ⟨hnonneg, hone, ?_, ?_, ?_⟩
    · rintro _ ⟨⟩
      exact hfixed
    · rintro _ ⟨⟩
      exact hwhole
    · rintro _ ⟨⟩
      exact hfits

theorem contender_withScale {x : Subsector n α} (hall : x.isAllFixed p = true)
    (hdemand : 0 < demand) :
    contender p demand ((x.offer p prices).state.withScale p scale)
      = fixedContender p demand prices scale x := by
  have hframed := x.framed_offer (p := p) prices
  have hfixed : ((x.offer p prices).state.withScale p scale).isAllFixed p = true :=
    hframed.isAllFixed ▸ hall
  have hsupply : ((x.offer p prices).state.withScale p scale).fixedSupply p
      = x.fixedOutputs p * scale := by
    rw [Subsector.fixedSupply_eq_sum, ← hframed.fixedOutputs]
    simp [Subsector.withScale, Subsector.update, Subsector.fixedOutputs]
  rw [contender, if_pos (by simp [hdemand, hfixed]), hsupply]
  simp [fixedContender, Subsector.contender, Subsector.withScale, Subsector.update]

section AllFixed

variable (hall : s.AllFixed p) (hdemand : 0 < demand)
  (hoffers : ∀ x ∈ s.subsectors, (x.offer p prices).failure = none)
  (hscale : (s.offering p demand prices).fitFactor p demand calibrate = scale)

include hall hoffers hscale

theorem contending_of_allFixed :
    (s.contending p demand prices calibrate).subsectors
      = s.subsectors.map fun x => (x.offer p prices).state.withScale p scale := by
  rw [subsectors_contending hoffers]
  exact List.map_congr_left fun x hx => by rw [if_pos (hall x hx), hscale]

include hdemand

theorem aims_of_allFixed :
    (s.contending p demand prices calibrate).aims p demand calibrate
      = s.subsectors.map fun x => ⟨fixedContender p demand prices scale x, none⟩ := by
  rw [aims, contending_of_allFixed hall hoffers hscale, List.map_map]
  refine List.map_congr_left fun x hx => ?_
  have hfixed : ((x.offer p prices).state.withScale p scale).isAllFixed p = true :=
    (x.framed_offer (p := p) prices).isAllFixed ▸ hall x hx
  rw [Function.comp_apply, contender_withScale (hall x hx) hdemand,
    targetShare_eq_none (Subsector.isCalibratable_of_isAllFixed hfixed)]

/-- Without targets a demand is shared out without recalibration. -/
theorem allocateAims_of_allFixed :
    allocateAims ((s.contending p demand prices calibrate).aims p demand calibrate)
      = ⟨s.subsectors.map (fixedContender p demand prices scale),
        allocate (s.subsectors.map (fixedContender p demand prices scale))⟩ := by
  rw [aims_of_allFixed hall hdemand hoffers hscale, allocateAims, List.map_map, if_neg]
  · rfl
  · simp

end AllFixed

section Shares

variable (hall : s.AllFixed p) (hdemand : 0 < demand)

include hall hdemand

/-- A demand is shared out between fixed outputs unless the checks are against it. -/
theorem allocate_fixedContender_iff (hsupply : 0 < s.fixedOutputs p * scale) {a : Allocation α} :
    allocate (s.subsectors.map (fixedContender p demand prices scale)) = .ok a ↔
      ((∀ x ∈ s.subsectors, (fixedContender p demand prices scale x).Admissible) ∧
        s.fixedOutputs p * scale ≤ demand * (1 + Quantity.shareTolerance)) ∧
        a = fixedAllocation (s.subsectors.map (fixedContender p demand prices scale)) := by
  have hne : s.subsectors.map (fixedContender p demand prices scale) ≠ [] :=
    mt List.map_eq_nil_iff.1 (hall.subsectors_ne_nil (left_ne_zero_of_mul hsupply.ne'))
  have htotal : fixedTotal (s.subsectors.map (fixedContender p demand prices scale))
      = s.fixedOutputs p * scale / demand := by
    rw [← hall.sum_scaled]
    exact fixedTotal_map fun _ _ => rfl
  rw [allocate_eq_ok_iff_of_fixed hne (List.forall_mem_map.2 fun _ _ => rfl), List.forall_mem_map,
    htotal, div_le_iff₀' hdemand, and_iff_right (div_pos hsupply hdemand)]

theorem awards_fixedContender :
    (fixedAllocation (s.subsectors.map (fixedContender p demand prices scale))).awards
      = s.subsectors.map fun x => ⟨s.suppliedShare p demand scale x, false⟩ := by
  unfold suppliedShare
  rw [← hall.sum_scaled]
  exact awards_fixedAllocation_map hdemand fun _ _ => rfl

end Shares

section Course

variable (hall : s.AllFixed p) (hdemand : 0 < demand)
  (hoffers : ∀ x ∈ s.subsectors, (x.offer p prices).failure = none)
  (hscale : (s.offering p demand prices).fitFactor p demand calibrate = scale)

include hall hdemand hoffers hscale

/-- Every subsector is awarded the part of the market that its fixed outputs serve. -/
theorem withAwards_of_allFixed :
    (s.contending p demand prices calibrate).withAwards p demand calibrate
        (fixedAllocation (s.subsectors.map (fixedContender p demand prices scale)))
      = s.subsectors.map fun x =>
        (x.offer p prices).state.assigned p scale (s.suppliedShare p demand scale x) := by
  rw [withAwards, decided, allocateAims_of_allFixed hall hdemand hoffers hscale,
    aims_of_allFixed hall hdemand hoffers hscale, contending_of_allFixed hall hoffers hscale,
    awards_fixedContender hall hdemand, awardEach, List.map_map, List.zip_map',
    List.zip_map', List.zipWith_map, List.zipWith_self]
  refine List.map_congr_left fun x _ => ?_
  rw [award_eq_update]
  simp only [Subsector.withScale, Subsector.assigned, Subsector.update, Series.modify_modify]
  rfl

end Course

section Production

variable (hdemand : 0 < demand) (hscale : 0 < scale) (hsupply : 0 < s.fixedOutputs p * scale)

include hdemand hscale hsupply

/-- A subsector that was admitted produces its part of the demand, from a multiple of its fixed
outputs. -/
theorem serveShare_assigned {x : Subsector n α} (hall : x.isAllFixed p = true)
    (hadmissible : (fixedContender p demand prices scale x).Admissible) (calibrate : Bool) :
    ∃ multiple, x.fixedOutputs p * multiple = s.suppliedShare p demand scale x * demand ∧
      serveShare p demand calibrate
          ((x.offer p prices).state.assigned p scale (s.suppliedShare p demand scale x))
        = .ok ((((x.offer p prices).state.assigned p multiple
            (s.suppliedShare p demand scale x)).produce p 0).takeStock p
              (s.suppliedShare p demand scale x * demand)) := by
  have hframed := x.framed_offer (p := p) prices
  have hfixed : (x.offer p prices).state.isAllFixed p = true := hframed.isAllFixed ▸ hall
  have hnonneg : 0 ≤ x.fixedOutputs p := by
    have hshare := hadmissible.fixed_nonneg _ rfl
    rwa [le_div_iff₀ hdemand, zero_mul, mul_nonneg_iff_of_pos_right hscale] at hshare
  have hshare : 0 ≤ s.suppliedShare p demand scale x :=
    div_nonneg (mul_nonneg hnonneg hscale.le) (servedMarket_pos hsupply hdemand).le
  have hgiven : ((x.offer p prices).state.assigned p scale
      (s.suppliedShare p demand scale x)).results[p].share = s.suppliedShare p demand scale x := by
    simp [Subsector.assigned, Subsector.update]
  rw [serveShare, hgiven, max_eq_left hdemand.le, ← hframed.fixedOutputs]
  refine Subsector.setOutput_assigned hfixed ?_ hscale (mul_nonneg hshare hdemand.le) ?_ calibrate
  · rwa [hframed.fixedOutputs]
  · intro hzero
    rw [hframed.fixedOutputs] at hzero
    rw [suppliedShare, hzero, zero_mul, zero_div, zero_mul]

end Production

section Calculation

variable (hall : s.AllFixed p) (hdemand : 0 < demand) (hsupply : 0 < s.fixedOutputs p * scale)
  (hscale : (∀ x ∈ s.subsectors, (x.offer p prices).failure = none) →
    (s.offering p demand prices).fitFactor p demand calibrate = scale)

include hall hdemand hsupply hscale

/-- A calculation comes to its end if the subsectors can offer prices and their fixed outputs can be
shared out. Nobody refuses to produce its part then. -/
theorem calculate_succeeds_iff_of_allFixed (hpos : 0 < scale) :
    (s.calculate p demand prices calibrate).failure = none ↔
      (∀ x ∈ s.subsectors, (x.offer p prices).failure = none) ∧
        (∀ x ∈ s.subsectors, (fixedContender p demand prices scale x).Admissible) ∧
        s.fixedOutputs p * scale ≤ demand * (1 + Quantity.shareTolerance) := by
  rw [calculate_succeeds_iff]
  refine and_congr_right fun hoffers => ?_
  have hfactor := hscale hoffers
  rw [allocateAims_of_allFixed hall hdemand hoffers hfactor]
  simp only [allocate_fixedContender_iff hall hdemand hsupply]
  constructor
  · rintro ⟨a, ⟨hchecked, -⟩, -⟩
    exact hchecked
  · intro hchecked
    refine ⟨_, ⟨hchecked, rfl⟩, ?_⟩
    rw [withAwards_of_allFixed hall hdemand hoffers hfactor, List.forall_mem_map]
    intro x hx
    obtain ⟨multiple, -, hserved⟩ := serveShare_assigned hdemand hpos hsupply (hall x hx)
      (hchecked.1 x hx) calibrate
    rw [hserved]
    rfl

theorem subsectors_calculate_of_allFixed
    (h : (s.calculate p demand prices calibrate).failure = none) :
    (s.calculate p demand prices calibrate).state.subsectors = s.subsectors.map fun x =>
      (serveShare p demand calibrate ((x.offer p prices).state.assigned p scale
        (s.suppliedShare p demand scale x))).state := by
  obtain ⟨hoffers, a, ha, -⟩ := calculate_succeeds_iff.1 h
  have hfactor := hscale hoffers
  rw [subsectors_calculate h ha]
  rw [allocateAims_of_allFixed hall hdemand hoffers hfactor] at ha
  obtain ⟨-, rfl⟩ := (allocate_fixedContender_iff hall hdemand hsupply).1 ha
  rw [withAwards_of_allFixed hall hdemand hoffers hfactor, List.map_map]
  rfl

end Calculation

end Sector

end NestedLogit
