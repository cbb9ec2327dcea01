import Mathlib.Algebra.Order.Field.Basic
import NestedLogit.Proofs.Model.Loading
import NestedLogit.Proofs.Series.Grouping
import NestedLogit.Proofs.Series.Sparse
import NestedLogit.Proofs.World.Domain

/-!
# The domain of models that are loaded

The values of every row are checked when it is read. From this it follows what holds of the series
that are made of them, in every period and for everything in a model, whether rows give values for
it or not: weights, costs, demands and prices are not negative, exponents are not positive,
efficiencies are positive, and no fixed share is larger than the capacity limit of its period.

## Main definitions

- `Technology.Admissible`, `Subsector.Admissible`, `Sector.Admissible`, `Region.Admissible` — what
  the calculation may rely on
- `TechnologyParameterRow.Checked`, `SubsectorParameterRow.Checked` — what checks ask of a row

## Main statements

- `TechnologyParameterRow.admissible_of_expand`, `SubsectorParameterRow.admissible_of_make` — what
  rows add up to is admissible
- `Tables.load_admissible` — so is everything in a model that is loaded
-/

namespace NestedLogit

variable {n : Nat} {α : Type} [ExactQuantity α]

/-- Parameters that a technology may have. -/
structure TechnologyParameters.Admissible (q : TechnologyParameters α) : Prop extends
    q.InDomain where
  logitExponent_nonpos : q.logitExponent ≤ 0
  nonEnergyCost_nonneg : 0 ≤ q.nonEnergyCost
  not_fixed_and_calibrated : q.fixedOutput = none ∨ q.calibrationOutput = none

/-- A technology with parameters that it may have and weights that are not negative. -/
structure Technology.Admissible (t : Technology n α) : Prop where
  baseShareWeight_nonneg : ∀ p : Fin n, 0 ≤ t.baseShareWeight[p]
  shareWeight_nonneg : ∀ p : Fin n, 0 ≤ t.results[p].shareWeight
  parameters : ∀ p : Fin n, t.parameters[p].Admissible

/-- Parameters that a subsector may have. -/
structure SubsectorParameters.Admissible (q : SubsectorParameters α) : Prop extends
    q.InDomain where
  logitExponent_nonpos : q.logitExponent ≤ 0
  fixedShare_le : ∀ x, q.fixedShare = some x → x ≤ q.capacityLimit

/-- A subsector with parameters that it may have and weights that are not negative. -/
structure Subsector.Admissible (s : Subsector n α) : Prop where
  baseShareWeight_nonneg : ∀ p : Fin n, 0 ≤ s.baseShareWeight[p]
  shareWeight_nonneg : ∀ p : Fin n, 0 ≤ s.results[p].shareWeight
  parameters : ∀ p : Fin n, s.parameters[p].Admissible
  technologies : ∀ t ∈ s.technologies, t.Admissible

/-- A sector whose final demand is not negative, with subsectors that may be calculated. -/
structure Sector.Admissible (s : Sector n α) : Prop where
  finalDemand_nonneg : ∀ p : Fin n, 0 ≤ s.finalDemand[p]
  subsectors : ∀ x ∈ s.subsectors, x.Admissible

/-- A region in which no price is negative, with sectors that may be calculated. -/
structure Region.Admissible (r : Region n α) : Prop where
  prices_nonneg : r.market.prices.Nonneg
  sectors : ∀ s ∈ r.sectors, s.Admissible

section Checks

variable {parameter : String} {value : Option α}

theorem nonneg_of_isAmount {x : α} (h : isAmount x = true) : 0 ≤ x :=
  of_decide_eq_true (Bool.and_eq_true_iff.1 h).2

theorem nonneg_of_checkAmount (h : checkAmount parameter value = .ok ()) :
    ∀ x, value = some x → 0 ≤ x := by
  rintro x rfl
  unfold checkAmount at h
  split at h
  · next hall => exact nonneg_of_isAmount hall
  · cases h

theorem nonpos_of_checkExponent (h : checkExponent value = .ok ()) :
    ∀ x, value = some x → x ≤ 0 := by
  rintro x rfl
  unfold checkExponent at h
  split at h
  · next hall => exact of_decide_eq_true (Bool.and_eq_true_iff.1 hall).2
  · cases h

end Checks

theorem defaultLogitExponent_nonpos : (defaultLogitExponent : α) ≤ 0 := by
  rw [defaultLogitExponent, Quantity.whole_eq_cast]
  simp

section Technologies

namespace TechnologyParameterRow

/-- What the checks of a row ask of its values. -/
structure Checked (row : TechnologyParameterRow α) : Prop where
  shareWeight_nonneg : ∀ x, row.shareWeight = some x → 0 ≤ x
  nonEnergyCost_nonneg : ∀ x, row.nonEnergyCost = some x → 0 ≤ x
  emissionsCoefficient_nonneg : ∀ x, row.emissionsCoefficient = some x → 0 ≤ x
  fixedOutput_nonneg : ∀ x, row.fixedOutput = some x → 0 ≤ x
  calibrationOutput_nonneg : ∀ x, row.calibrationOutput = some x → 0 ≤ x
  logitExponent_nonpos : ∀ x, row.logitExponent = some x → x ≤ 0
  efficiency_pos : ∀ x, row.efficiency = some x → 0 < x
  not_fixed_and_calibrated : row.fixedOutput = none ∨ row.calibrationOutput = none

theorem checked_of_check {row : TechnologyParameterRow α} (h : check row = .ok ()) :
    row.Checked := by
  obtain ⟨⟨⟩, hshareWeight, h⟩ := bind_eq_ok.1 h
  obtain ⟨⟨⟩, hcost, h⟩ := bind_eq_ok.1 h
  obtain ⟨⟨⟩, hemissions, h⟩ := bind_eq_ok.1 h
  obtain ⟨⟨⟩, hfixed, h⟩ := bind_eq_ok.1 h
  obtain ⟨⟨⟩, hcalibration, h⟩ := bind_eq_ok.1 h
  obtain ⟨⟨⟩, hexponent, h⟩ := bind_eq_ok.1 h
  dsimp only at h
  by_cases hefficiency : (!row.efficiency.all fun x => Quantity.isFinite x && 0 < x) = true
  · rw [if_pos hefficiency] at h
    cases h
  · rw [if_neg hefficiency] at h
    by_cases hboth : (row.fixedOutput.isSome && row.calibrationOutput.isSome) = true
    · rw [if_pos hboth] at h
      cases h
    · refine ⟨nonneg_of_checkAmount hshareWeight, nonneg_of_checkAmount hcost,
        nonneg_of_checkAmount hemissions, nonneg_of_checkAmount hfixed,
        nonneg_of_checkAmount hcalibration, nonpos_of_checkExponent hexponent, ?_, ?_⟩
      · intro x hx
        have hall : (row.efficiency.all fun x => Quantity.isFinite x && 0 < x) = true := by
          simpa using hefficiency
        rw [hx] at hall
        exact of_decide_eq_true (Bool.and_eq_true_iff.1 hall).2
      · rw [Bool.and_eq_true, not_and_or] at hboth
        simpa using hboth

/-- Rows that passed their checks add up to parameters that a technology may have. -/
theorem admissible_of_expand {c : Calendar n} {rows : Sparse (TechnologyParameterRow α)}
    {x : Series n α × Series n (TechnologyParameters α)} (h : expand c rows = .ok x)
    (hrows : ∀ e ∈ rows.entries, e.2.Checked) :
    (∀ p : Fin n, 0 ≤ x.1[p]) ∧ ∀ p : Fin n, x.2[p].Admissible := by
  obtain ⟨⟨shareWeights, anchored⟩, hshareWeights, h⟩ := bind_eq_ok.1 h
  obtain ⟨logitExponents, hlogitExponents, h⟩ := bind_eq_ok.1 h
  obtain ⟨nonEnergyCosts, hnonEnergyCosts, h⟩ := bind_eq_ok.1 h
  obtain ⟨efficiencies, hefficiencies, h⟩ := bind_eq_ok.1 h
  obtain ⟨emissions, hemissions, h⟩ := bind_eq_ok.1 h
  obtain ⟨fixedOutputs, hfixedOutputs, h⟩ := bind_eq_ok.1 h
  obtain ⟨calibrationOutputs, hcalibrationOutputs, h⟩ := bind_eq_ok.1 h
  cases h
  constructor
  · exact Sparse.interpolate_nonneg hshareWeights zero_le_one
      (Sparse.forall_filterMap hrows fun _ h => h.shareWeight_nonneg)
  · intro p
    dsimp only
    rw [Series.getElem_ofFn]
    exact {
      efficiency_pos := Sparse.forall_carryForward hefficiencies one_pos
        (Sparse.forall_filterMap hrows fun _ h => h.efficiency_pos) p
      emissionsCoefficient_nonneg := Sparse.forall_carryForward hemissions le_rfl
        (Sparse.forall_filterMap hrows fun _ h => h.emissionsCoefficient_nonneg) p
      fixedOutput_nonneg := Sparse.forall_perPeriod hfixedOutputs
        (Sparse.forall_filterMap hrows fun _ h => h.fixedOutput_nonneg) p
      calibrationOutput_nonneg := Sparse.forall_perPeriod hcalibrationOutputs
        (Sparse.forall_filterMap hrows fun _ h => h.calibrationOutput_nonneg) p
      logitExponent_nonpos := Sparse.forall_carryForward hlogitExponents defaultLogitExponent_nonpos
        (Sparse.forall_filterMap hrows fun _ h => h.logitExponent_nonpos) p
      nonEnergyCost_nonneg := Sparse.forall_carryForward hnonEnergyCosts le_rfl
        (Sparse.forall_filterMap hrows fun _ h => h.nonEnergyCost_nonneg) p
      not_fixed_and_calibrated := Sparse.none_or_none_of_perPeriod hfixedOutputs
        hcalibrationOutputs (fun e he => (hrows e he).not_fixed_and_calibrated) p }

/-- A row is placed only if its values pass their checks. -/
theorem checked_of_place {c : Calendar n} {regions : List RegionId}
    {technologies : TechnologyTable n α} {row : TechnologyParameterRow α}
    {placed : List (KeyedRow TechnologyPath (TechnologyParameterRow α))}
    (h : series.place c regions technologies row = .ok placed) :
    ∀ x ∈ placed, x.row.Checked := by
  obtain ⟨⟨⟩, hcheck, h⟩ := bind_eq_ok.1 h
  obtain ⟨period, -, h⟩ := bind_eq_ok.1 h
  obtain ⟨ids, -, h⟩ := bind_eq_ok.1 h
  have hchecked := checked_of_check (mapError_eq_ok.1 hcheck)
  refine forall_mem_of_forall₂ (mapM_eq_ok.1 h) fun region _ x hx => ?_
  dsimp only at hx
  split at hx
  · cases hx
    exact hchecked
  · cases hx

theorem admissible_of_series {c : Calendar n} {regions : List RegionId}
    {technologies : TechnologyTable n α} {rows : List (TechnologyParameterRow α)}
    {parameters : List (TechnologyPath × Series n α × Series n (TechnologyParameters α))}
    (h : series c regions technologies rows = .ok parameters) :
    ∀ e ∈ parameters, (∀ p : Fin n, 0 ≤ e.2.1[p]) ∧ ∀ p : Fin n, e.2.2[p].Admissible := by
  intro e he
  obtain ⟨s, hmade, hs⟩ := groupRows_eq_ok h e he
  refine admissible_of_expand (mapError_eq_ok.1 hmade) fun x hx => ?_
  obtain ⟨row, -, placed, hplaced, hmem⟩ := hs x hx
  exact checked_of_place hplaced _ hmem

end TechnologyParameterRow

theorem Technology.admissible_new (n : Nat) (id : TechnologyId) (fuel : Option GoodId) :
    (Technology.new n id fuel : Technology n α).Admissible where
  baseShareWeight_nonneg p := by
    rw [Technology.new, Series.getElem_const]
    exact zero_le_one
  shareWeight_nonneg p := by
    rw [Technology.new, Series.getElem_const]
    exact zero_le_one
  parameters p := by
    rw [Technology.new, Series.getElem_const]
    exact {
      efficiency_pos := one_pos
      emissionsCoefficient_nonneg := le_rfl
      fixedOutput_nonneg := fun _ h => by cases h
      calibrationOutput_nonneg := fun _ h => by cases h
      logitExponent_nonpos := defaultLogitExponent_nonpos
      nonEnergyCost_nonneg := le_rfl
      not_fixed_and_calibrated := .inl rfl }

end Technologies

section Subsectors

namespace SubsectorParameterRow

/-- What checks and decoding ask of the values of a row. -/
structure Checked (row : SubsectorParameterRow α) : Prop where
  shareWeight_nonneg : ∀ x, row.shareWeight = some x → 0 ≤ x
  logitExponent_nonpos : ∀ x, row.logitExponent = some x → x ≤ 0
  capacityLimit_proportion : ∀ x, row.capacityLimit = some x → 0 ≤ x ∧ x ≤ 1
  fixedShare_proportion : ∀ x, row.fixedShare = some x → 0 ≤ x ∧ x ≤ 1

/-- The proportions among the values of a row were decoded as such. -/
def Proportioned (row : SubsectorParameterRow α) : Prop :=
  (∀ x, row.capacityLimit = some x → Quantity.isProportion x = true) ∧
    ∀ x, row.fixedShare = some x → Quantity.isProportion x = true

theorem checked_of_check {row : SubsectorParameterRow α} (hrow : row.Proportioned)
    (h : check row = .ok ()) : row.Checked := by
  obtain ⟨⟨⟩, hshareWeight, hexponent⟩ := bind_eq_ok.1 h
  exact ⟨nonneg_of_checkAmount hshareWeight, nonpos_of_checkExponent hexponent,
    fun x hx => Quantity.isProportion_iff.1 (hrow.1 x hx),
    fun x hx => Quantity.isProportion_iff.1 (hrow.2 x hx)⟩

theorem fixedShare_le_of_excess {c : Calendar n} {path : SubsectorPath}
    {parameters : Series n (SubsectorParameters α)} (h : excess? c path parameters = none)
    (p : Fin n) : ∀ x, parameters[p].fixedShare = some x → x ≤ parameters[p].capacityLimit := by
  intro x hx
  have hnone := List.findSome?_eq_none_iff.1 h p (List.mem_finRange p)
  rw [hx] at hnone
  by_contra hexceeds
  rw [Option.bind_some, if_neg hexceeds] at hnone
  cases hnone

/-- Rows that passed their checks are made into parameters that a subsector may have. -/
theorem admissible_of_make {c : Calendar n} {path : SubsectorPath}
    {rows : Sparse (SubsectorParameterRow α)}
    {x : Series n α × Series n (SubsectorParameters α)} (h : series.make c path rows = .ok x)
    (hrows : ∀ e ∈ rows.entries, e.2.Checked) :
    (∀ p : Fin n, 0 ≤ x.1[p]) ∧ ∀ p : Fin n, x.2[p].Admissible := by
  obtain ⟨expanded, hexpanded, h⟩ := bind_eq_ok.1 h
  cases hexcess : excess? c path expanded.2 with
  | some e =>
    rw [hexcess] at h
    cases h
  | none =>
    rw [hexcess] at h
    cases h
    have h := mapError_eq_ok.1 hexpanded
    obtain ⟨⟨shareWeights, anchored⟩, hshareWeights, h⟩ := bind_eq_ok.1 h
    obtain ⟨logitExponents, hlogitExponents, h⟩ := bind_eq_ok.1 h
    obtain ⟨capacityLimits, hcapacityLimits, h⟩ := bind_eq_ok.1 h
    obtain ⟨fixedShares, hfixedShares, h⟩ := bind_eq_ok.1 h
    have hwithin := fixedShare_le_of_excess hexcess
    cases h
    constructor
    · exact Sparse.interpolate_nonneg hshareWeights zero_le_one
        (Sparse.forall_filterMap hrows fun _ h => h.shareWeight_nonneg)
    · intro p
      have hwithin := hwithin p
      dsimp only at hwithin ⊢
      rw [Series.getElem_ofFn] at hwithin ⊢
      exact {
        capacityLimit_proportion := Sparse.forall_carryForward (P := fun x => 0 ≤ x ∧ x ≤ 1)
          hcapacityLimits ⟨zero_le_one, le_rfl⟩
          (Sparse.forall_filterMap hrows fun _ h => h.capacityLimit_proportion) p
        fixedShare_proportion := Sparse.forall_perPeriod (P := fun x => 0 ≤ x ∧ x ≤ 1)
          hfixedShares (Sparse.forall_filterMap hrows fun _ h => h.fixedShare_proportion) p
        logitExponent_nonpos := Sparse.forall_carryForward hlogitExponents
          defaultLogitExponent_nonpos
          (Sparse.forall_filterMap hrows fun _ h => h.logitExponent_nonpos) p
        fixedShare_le := hwithin }

theorem checked_of_place {c : Calendar n} {regions : List RegionId}
    {subsectors : SubsectorTable n α} {row : SubsectorParameterRow α} (hrow : row.Proportioned)
    {placed : List (KeyedRow SubsectorPath (SubsectorParameterRow α))}
    (h : series.place c regions subsectors row = .ok placed) :
    ∀ x ∈ placed, x.row.Checked := by
  obtain ⟨⟨⟩, hcheck, h⟩ := bind_eq_ok.1 h
  obtain ⟨period, -, h⟩ := bind_eq_ok.1 h
  obtain ⟨ids, -, h⟩ := bind_eq_ok.1 h
  have hchecked := checked_of_check hrow (mapError_eq_ok.1 hcheck)
  refine forall_mem_of_forall₂ (mapM_eq_ok.1 h) fun region _ x hx => ?_
  dsimp only at hx
  split at hx
  · cases hx
    exact hchecked
  · cases hx

theorem admissible_of_series {c : Calendar n} {regions : List RegionId}
    {subsectors : SubsectorTable n α} {rows : List (SubsectorParameterRow α)}
    (hrows : ∀ row ∈ rows, row.Proportioned)
    {parameters : List (SubsectorPath × Series n α × Series n (SubsectorParameters α))}
    (h : series c regions subsectors rows = .ok parameters) :
    ∀ e ∈ parameters, (∀ p : Fin n, 0 ≤ e.2.1[p]) ∧ ∀ p : Fin n, e.2.2[p].Admissible := by
  intro e he
  obtain ⟨s, hmade, hs⟩ := groupRows_eq_ok h e he
  refine admissible_of_make hmade fun x hx => ?_
  obtain ⟨row, hrow, placed, hplaced, hmem⟩ := hs x hx
  exact checked_of_place (hrows row hrow) hplaced _ hmem

end SubsectorParameterRow

theorem Subsector.admissible_new (n : Nat) (path : SubsectorPath) :
    (Subsector.new n path : Subsector n α).Admissible where
  baseShareWeight_nonneg p := by
    rw [Subsector.new, Series.getElem_const]
    exact zero_le_one
  shareWeight_nonneg p := by
    rw [Subsector.new, Series.getElem_const]
    exact zero_le_one
  parameters p := by
    rw [Subsector.new, Series.getElem_const]
    exact {
      capacityLimit_proportion := ⟨zero_le_one, le_rfl⟩
      fixedShare_proportion := fun _ h => by cases h
      logitExponent_nonpos := defaultLogitExponent_nonpos
      fixedShare_le := fun _ h => by cases h }
  technologies _ h := absurd h List.not_mem_nil

end Subsectors

section Amounts

theorem DemandRow.nonneg_of_series {c : Calendar n} {sectors : SectorTable n α}
    {rows : List (DemandRow α)} {demands : List (SectorPath × Series n α)}
    (h : DemandRow.series c sectors rows = .ok demands) :
    ∀ e ∈ demands, ∀ p : Fin n, 0 ≤ e.2[p] := by
  intro e he
  obtain ⟨s, hmade, hs⟩ := groupRows_eq_ok h e he
  refine Sparse.forall_carryForward (mapError_eq_ok.1 hmade) le_rfl fun x hx => ?_
  obtain ⟨row, -, placed, hplaced, hmem⟩ := hs x hx
  unfold DemandRow.series.place at hplaced
  dsimp only at hplaced
  split at hplaced
  · cases hplaced
  · next hamount =>
    split at hplaced
    · cases hplaced
    · obtain ⟨period, -, hplaced⟩ := bind_eq_ok.1 hplaced
      cases hplaced
      rw [show x.2 = row.demand from congrArg KeyedRow.row (List.mem_singleton.1 hmem)]
      exact nonneg_of_isAmount (by simpa using hamount)

theorem PriceList.nonneg_of_ofRows {c : Calendar n} {regions : List RegionId}
    {rows : List (PriceRow α)} {prices : PriceList n α}
    (h : PriceList.ofRows c regions rows = .ok prices) :
    ∀ e ∈ prices, ∀ p : Fin n, 0 ≤ e.2[p] := by
  intro e he
  obtain ⟨s, hmade, hs⟩ := groupRows_eq_ok h e he
  refine Sparse.forall_carryForward (mapError_eq_ok.1 hmade) le_rfl fun x hx => ?_
  obtain ⟨row, -, placed, hplaced, hmem⟩ := hs x hx
  obtain ⟨region, -, hplaced⟩ := bind_eq_ok.1 hplaced
  dsimp only at hplaced
  split at hplaced
  · cases hplaced
  · next hamount =>
    obtain ⟨period, -, hplaced⟩ := bind_eq_ok.1 hplaced
    cases hplaced
    rw [show x.2 = row.price from congrArg KeyedRow.row (List.mem_singleton.1 hmem)]
    exact nonneg_of_isAmount (by simpa using hamount)

theorem GoodTable.nonneg_putSeries {t : GoodTable α} (ht : t.Nonneg) (good : GoodId)
    {amounts : Series n α} (h : ∀ p : Fin n, 0 ≤ amounts[p]) :
    (GoodTable.putSeries t good amounts).Nonneg := by
  have hpairs : ∀ x ∈ amounts.toPairs, 0 ≤ x.2 := List.forall_mem_map.2 fun p _ => h p
  exact List.foldlRecOn _ _ ht fun t ht x hx => ht.insert _ (hpairs x hx)

/-- No price of a region is negative if none in a list is. -/
theorem PriceList.nonneg_ofRegion {prices : PriceList n α}
    (h : ∀ e ∈ prices, ∀ p : Fin n, 0 ≤ e.2[p]) (region : RegionId) :
    (PriceList.ofRegion prices region).Nonneg := by
  have hempty : (OrderedMap.empty : GoodTable α).Nonneg := OrderedMap.nonneg_empty
  exact List.foldlRecOn _ _ hempty fun t ht e he =>
    GoodTable.nonneg_putSeries ht _ (h e (List.mem_of_mem_filter he))

end Amounts

section Assembly

theorem Sector.admissible_new (n : Nat) (path : SectorPath) :
    (Sector.new n path : Sector n α).Admissible where
  finalDemand_nonneg p := by
    rw [Sector.new, Series.getElem_const]
  subsectors _ h := absurd h List.not_mem_nil

theorem Technology.Admissible.withParameters {t : Technology n α} (h : t.Admissible)
    {x : Series n α × Series n (TechnologyParameters α)}
    (hx : (∀ p : Fin n, 0 ≤ x.1[p]) ∧ ∀ p : Fin n, x.2[p].Admissible) :
    ({ t with baseShareWeight := x.1, parameters := x.2 } : Technology n α).Admissible :=
  ⟨hx.1, h.shareWeight_nonneg, hx.2⟩

theorem Subsector.Admissible.withParameters {s : Subsector n α} (h : s.Admissible)
    {x : Series n α × Series n (SubsectorParameters α)}
    (hx : (∀ p : Fin n, 0 ≤ x.1[p]) ∧ ∀ p : Fin n, x.2[p].Admissible) :
    ({ s with baseShareWeight := x.1, parameters := x.2 } : Subsector n α).Admissible :=
  ⟨hx.1, h.shareWeight_nonneg, hx.2, h.technologies⟩

namespace Tables

variable {t : Tables α}

/-- The proportions of all rows were decoded as such. -/
def Proportioned (t : Tables α) : Prop :=
  ∀ rows, t.subsectorParameters = .ok rows → ∀ row ∈ rows, row.Proportioned

namespace Reading

variable {c : Calendar n} {regions : List RegionId} (r : Reading t c regions)

theorem admissible_technologies : ∀ e ∈ r.technologies.entries, e.2.Admissible := by
  obtain ⟨parameters, hparameters, h⟩ := r.technologies_eq_update
  rw [← h]
  apply OrderedMap.forall_mem_update (P := fun _ (t : Technology n α) => t.Admissible)
  · intro e he
    obtain ⟨⟨fuel, hnew⟩, -⟩ := Technology.eq_new_of_ofRows r.newTechnologies_eq e he
    rw [hnew]
    exact Technology.admissible_new _ _ _
  · intro k t x hx ht
    exact ht.withParameters (TechnologyParameterRow.admissible_of_series hparameters _ hx)

theorem admissible_subsectors (ht : t.Proportioned) :
    ∀ e ∈ r.subsectors.entries, e.2.Admissible := by
  obtain ⟨parameters, hparameters, h⟩ := r.subsectors_eq_update
  rw [← h]
  apply OrderedMap.forall_mem_update (P := fun _ (s : Subsector n α) => s.Admissible)
  · intro e he
    rw [(Subsector.eq_new_of_ofRows r.newSubsectors_eq e he).1]
    exact Subsector.admissible_new _ _
  · intro k s x hx hs
    exact hs.withParameters (SubsectorParameterRow.admissible_of_series
      (ht _ r.subsectorParameters_eq) hparameters _ hx)

theorem admissible_sectors : ∀ e ∈ r.sectors.entries, e.2.Admissible := by
  obtain ⟨demands, hdemands, h⟩ := r.sectors_eq_update
  rw [← h]
  apply OrderedMap.forall_mem_update (P := fun _ (s : Sector n α) => s.Admissible)
  · intro e he
    rw [(Sector.eq_new_of_ofRows r.newSectors_eq e he).1]
    exact Sector.admissible_new _ _
  · intro k s demand hdemand hs
    exact ⟨DemandRow.nonneg_of_series hdemands _ hdemand, hs.subsectors⟩

/-- Handing the members of tables to their parents keeps everything admissible. -/
theorem admissible_tree (ht : t.Proportioned) :
    ∀ e ∈ (tree r.sectors r.subsectors r.technologies).entries, e.2.Admissible := by
  have hsubsectors : ∀ e ∈ (SubsectorTable.withTechnologies r.subsectors r.technologies).entries,
      e.2.Admissible := by
    refine List.forall_mem_map.2 fun e he => ?_
    refine { r.admissible_subsectors ht e he with technologies := fun x hx => ?_ }
    obtain ⟨e', he', hmem⟩ := List.mem_filterMap.1 hx
    split at hmem
    · cases hmem
      exact r.admissible_technologies e' he'
    · cases hmem
  refine List.forall_mem_map.2 fun e he => ?_
  refine { r.admissible_sectors e he with subsectors := fun x hx => ?_ }
  obtain ⟨e', he', hmem⟩ := List.mem_filterMap.1 hx
  split at hmem
  · cases hmem
    exact hsubsectors e' he'
  · cases hmem

end Reading

/-- In every model that is loaded, whether rows give a value or not and in every period: weights,
costs, coefficients, demands and prices are not negative, exponents not positive and efficiencies
positive; capacity limits and fixed shares are proportions, and no fixed share exceeds the capacity
limit of its period; and no output is both fixed and given by calibration data. -/
theorem load_admissible (ht : t.Proportioned) {m : Model α} (hm : t.load = .ok m) :
    ∀ r ∈ m.world.regions, r.Admissible := by
  obtain ⟨x⟩ := nonempty_loaded hm
  refine forall_mem_of_forall₂ x.regions fun row _ r hr => ⟨?_, fun s hs => ?_⟩
  · rw [hr.prices]
    exact PriceList.nonneg_ofRegion (PriceList.nonneg_of_ofRows x.prices_eq) _
  · obtain ⟨e, he, hmem⟩ := List.mem_filterMap.1 (hr.sectors.mem_iff.1 hs)
    split at hmem
    · cases hmem
      exact x.reading.admissible_tree ht e he
    · cases hmem

/-- In the valley, the weight of the boilers falls to zero, and three quarters of the heat are fixed
under a limit of four fifths. -/
theorem valleyTables_admissible :
    (valleyTables valleyRows).Proportioned ∧
      ∃ m, (valleyTables valleyRows).load = .ok m ∧
        m.world.regions.map (·.id) = [⟨"north"⟩, ⟨"south"⟩] ∧
        ∀ r ∈ m.world.regions, r.Admissible := by
  have hproportioned : (valleyTables valleyRows).Proportioned := by
    intro rows hrows
    cases hrows
    simp only [boilerRows, List.forall_mem_cons, SubsectorParameterRow.Proportioned,
      Quantity.isProportion_iff]
    refine ⟨⟨?_, ?_⟩, ⟨?_, ?_⟩, by simp⟩ <;> rintro x ⟨⟩ <;> norm_num
  obtain ⟨m, hm⟩ := exists_load_valleyTables
  refine ⟨hproportioned, m, hm, ?_, load_admissible hproportioned hm⟩
  obtain ⟨x⟩ := nonempty_loaded hm
  have hregions := congrArg (List.map RegionRow.id) x.map_regions
  rwa [x.layout_eq (valleyTables_hasLayout valleyRows), List.map_map] at hregions

end Tables

end Assembly

end NestedLogit
