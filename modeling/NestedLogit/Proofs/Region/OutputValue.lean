import NestedLogit.Proofs.Region.Demand
import NestedLogit.Proofs.Sector.Revenue

/-!
# The value of a region's output

Every sector of a region sells its output at cost. In a general equilibrium the value of output,
which is counted at the prices of the sectors, is therefore what all technologies spend on their
outputs. Sectors without demand produce nothing and add nothing to it.

## Main definitions

- `Sector.BreaksEven` — a sector that sells its output at cost, and produces only on demand

## Main statements

- `Region.breaksEven_calculate` — all sectors of a calculated region do
- `revenue_eq_cost` — the revenue of a sector and the value of output of a region
-/

namespace NestedLogit

variable {n : Nat} {α : Type} {p : Fin n}

namespace Sector

/-- A sector that sells its output at cost and produces nothing if nothing is demanded. -/
structure BreaksEven [ExactQuantity α] (p : Fin n) (s : Sector n α) : Prop where
  sold : SoldAtCost p s.results[p].output s.results[p].price s.technologies
  idle : ¬0 < s.results[p].demand → s.results[p].output = 0

/-- The sectors for whose goods there is a demand. -/
def demanded [Quantity α] (p : Fin n) (ss : List (Sector n α)) : List (Sector n α) :=
  ss.filter fun s => 0 < s.results[p].demand

variable [ExactQuantity α] {s : Sector n α}

theorem breaksEven_calculate {demand : α} {prices : GoodTable α} {calibrate : Bool}
    (hfixed : ∀ t ∈ s.technologies, ∀ fixed, t.parameters[p].fixedOutput = some fixed → 0 ≤ fixed)
    (h : (s.calculate p demand prices calibrate).failure = none) :
    (s.calculate p demand prices calibrate).state.BreaksEven p where
  sold := soldAtCost_calculate hfixed h
  idle := by
    rw [demand_calculate h]
    intro hidle
    obtain ⟨_, a, -, -, houtput⟩ := output_calculate h
    rw [houtput, max_eq_right (not_lt.1 hidle), mul_zero]

/-- The revenue of sectors that break even is what the outputs of those with a demand cost. -/
theorem sum_revenue {ss : List (Sector n α)} (h : ∀ s ∈ ss, s.BreaksEven p) :
    (ss.map fun s => s.results[p].price * s.results[p].output).sum
      = ((demanded p ss).map fun s => totalCost p s.technologies).sum := by
  have hrevenue : ∀ s ∈ ss, s.results[p].price * s.results[p].output
      = if 0 < s.results[p].demand then totalCost p s.technologies else 0 := by
    intro s hs
    split
    · exact (h s hs).sold.revenue
    · next hidle => rw [(h s hs).idle hidle, mul_zero]
  rw [List.map_congr_left hrevenue, List.sum_map_ite]
  simp [demanded]

end Sector

namespace Region

variable [ExactQuantity α] {r : Region n α} {calibrate : Bool}

/-- In a region that was calculated every sector breaks even. -/
theorem breaksEven_calculate
    (hfixed : ∀ t ∈ r.technologies, ∀ fixed, t.parameters[p].fixedOutput = some fixed → 0 ≤ fixed)
    (h : (r.calculate p calibrate).failure = none) :
    ∀ s ∈ (r.calculate p calibrate).state.sectors, s.BreaksEven p := by
  obtain ⟨hrun, -, hsectors⟩ := calculate_eq_ok h
  rw [hsectors]
  refine (((Run.Ends.eachWith (P := fun _ => True) (Q := Sector.BreaksEven p)
    (A := fun _ => True) trivial fun s hs => ⟨trivial, fun m _ => ⟨⟨trivial, trivial⟩, fun hok =>
      ⟨trivial, ?_⟩⟩⟩).success hrun).2)
  refine Sector.breaksEven_calculate ?_ ((Run.failure_within _ _).1 hok)
  have hframed := (s.framed_applyCarbonTax (p := p) r.carbonTax[p]).technologies
  exact forall_mem_of_forall₂ hframed fun t ht _ ht' fixed hsome =>
    hfixed t (List.mem_flatMap.2 ⟨s, hs, ht⟩) fixed (ht'.parameters ▸ hsome)

theorem outputValue_calculate (hkind : r.kind = .generalEquilibrium)
    (h : (r.calculate p calibrate).failure = none) :
    (r.calculate p calibrate).state.outputValue? p
      = some (valueOfOutput (r.calculate p calibrate).state.sectors p) := by
  have hkept : (r.calculate p calibrate).state.kind = .generalEquilibrium :=
    (r.framed_calculate p calibrate).kind.symm.trans hkind
  obtain ⟨hrun, -⟩ := Run.failure_andThen.1 h
  rw [outputValue?, if_pos hkept, calculate, Run.state_andThen hrun]
  split
  · exact congrArg some (Series.getElem_modify_self ..)
  · next hother => exact absurd hkind hother

end Region

variable [ExactQuantity α]

/-- Whatever is demanded, the revenue of a sector is what the outputs of its technologies cost, and
its price lies between the costs of those who produce something. In a general equilibrium the value
of a region's output is therefore what the outputs of all technologies cost in the sectors for whose
goods there is a demand. -/
theorem revenue_eq_cost :
    (∀ (s : Sector n α) (p : Fin n) (demand : α) (prices : GoodTable α) (calibrate : Bool),
      (∀ t ∈ s.technologies, ∀ fixed, t.parameters[p].fixedOutput = some fixed → 0 ≤ fixed) →
      (s.calculate p demand prices calibrate).failure = none →
      let s' := (s.calculate p demand prices calibrate).state
      s'.results[p].price * s'.results[p].output = totalCost p s'.technologies ∧
        (0 < s'.results[p].output → PricedBetween p s'.results[p].price s'.technologies)) ∧
    ∀ (r : Region n α) (p : Fin n) (calibrate : Bool),
      (∀ t ∈ r.technologies, ∀ fixed, t.parameters[p].fixedOutput = some fixed → 0 ≤ fixed) →
      r.kind = .generalEquilibrium → (r.calculate p calibrate).failure = none →
      let r' := (r.calculate p calibrate).state
      r'.outputValue? p
        = some ((Sector.demanded p r'.sectors).map fun s => totalCost p s.technologies).sum := by
  constructor
  · intro s p demand prices calibrate hfixed h
    have hsold := Sector.soldAtCost_calculate hfixed h
    exact ⟨hsold.revenue, hsold.pricedBetween⟩
  · intro r p calibrate hfixed hkind h
    have hvalue := Region.outputValue_calculate hkind h
    rwa [Region.valueOfOutput, Quantity.total_eq_sum,
      Sector.sum_revenue (Region.breaksEven_calculate hfixed h)] at hvalue

/-- A sector in which a dam with a fixed output shares a subsector with wind, and gas competes. -/
def damSector : Sector 1 ℚ :=
  let technology (name : String) (cost : ℚ) (fixed : Option ℚ) : Technology 1 ℚ :=
    { Technology.new 1 ⟨name⟩ none with
      parameters := Series.const 1
        { TechnologyParameters.default with nonEnergyCost := cost, fixedOutput := fixed } }
  let subsector (name : String) (ts : List (Technology 1 ℚ)) : Subsector 1 ℚ :=
    { (Subsector.new 1 ⟨⟨"island"⟩, ⟨"power"⟩, ⟨name⟩⟩ : Subsector 1 ℚ) with technologies := ts }
  { (Sector.new 1 ⟨⟨"island"⟩, ⟨"power"⟩⟩ : Sector 1 ℚ) with
    subsectors :=
      [subsector "renewable" [technology "dam" 4 (some 3), technology "wind" 1 none],
        subsector "fossil" [technology "gas" 2 none]] }

/-- A region in general equilibrium, with a sector that consumes gas and one that supplies it. -/
def generalGasRegion : Region 1 ℚ :=
  { Region.pricedGasRegion with kind := .generalEquilibrium }

theorem damSector_revenue :
    ((∀ t ∈ damSector.technologies, ∀ fixed,
          t.parameters[(0 : Fin 1)].fixedOutput = some fixed → 0 ≤ fixed) ∧
        (damSector.calculate 0 9 .empty false).failure = none ∧
        (∀ t ∈ generalGasRegion.technologies, ∀ fixed,
          t.parameters[(0 : Fin 1)].fixedOutput = some fixed → 0 ≤ fixed) ∧
        generalGasRegion.kind = .generalEquilibrium ∧
        (generalGasRegion.calculate 0 true).failure = none) ∧
      (generalGasRegion.calculate 0 true).state.outputValue? 0
        = some ((Sector.demanded 0 (generalGasRegion.calculate 0 true).state.sectors).map
          fun s => totalCost 0 s.technologies).sum ∧
      let s := (damSector.calculate 0 9 .empty false).state
      s.results[(0 : Fin 1)].price * s.results[(0 : Fin 1)].output = totalCost 0 s.technologies ∧
        (0 < s.results[(0 : Fin 1)].output →
          PricedBetween 0 s.results[(0 : Fin 1)].price s.technologies) := by
  have hfixed : ∀ t ∈ damSector.technologies, ∀ fixed,
      t.parameters[(0 : Fin 1)].fixedOutput = some fixed → 0 ≤ fixed := by
    simp [damSector, Sector.technologies]
  have h : (damSector.calculate 0 9 .empty false).failure = none :=
    Option.isNone_iff_eq_none.1 (by decide +kernel)
  have hunfixed : ∀ t ∈ generalGasRegion.technologies, ∀ fixed,
      t.parameters[(0 : Fin 1)].fixedOutput = some fixed → 0 ≤ fixed := by
    simp [generalGasRegion, Region.pricedGasRegion, Region.gasRegion, Region.powerSector,
      Region.gasSector, Region.plantSector, Region.technologies, Sector.technologies,
      Technology.new, TechnologyParameters.default]
  have h' : (generalGasRegion.calculate 0 true).failure = none :=
    Option.isNone_iff_eq_none.1 (by decide +kernel)
  exact ⟨⟨hfixed, h, hunfixed, rfl, h'⟩,
    revenue_eq_cost.2 generalGasRegion 0 true hunfixed rfl h',
    revenue_eq_cost.1 damSector 0 9 .empty false hfixed h⟩

example : (generalGasRegion.calculate 0 true).state.outputValue? 0 = some 18 := by
  decide +kernel

end NestedLogit
