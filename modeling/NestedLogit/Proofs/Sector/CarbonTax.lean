import NestedLogit.Proofs.Sector.Revenue

/-!
# The carbon tax that is charged and the one that is paid

The cost of a technology contains a tax on its emissions per unit of output, and what it produces
determines its fuel, its emissions and the tax on them. For a technology that consumes a fuel both
come to the same: its cost covers its fuel and the tax that it pays. One without a fuel is charged
for emissions as well, if it has an emissions coefficient, but it consumes nothing, emits nothing
and pays nothing.

## Main definitions

- `Technology.Charged` — a cost that accounts for the fuel and for a carbon tax
- `Technology.Metered` — fuel and emissions that follow from the output
- `expenses` — what technologies pay for their outputs
- `fuellessEmissions` — the emissions that technologies without a fuel are charged for

## Main statements

- `Sector.charged_calculate` — in the end every technology is charged and metered
- `totalCost_eq_expenses_add` — costs exceed expenses by the tax on emissions without a fuel
- `Sector.carbonTax_calculate` — the tax that is charged is the one that is paid but for these
-/

namespace NestedLogit

variable {n : Nat} {α : Type} {p : Fin n} [ExactQuantity α]

namespace Technology

/-- The emissions per unit of output that a technology is charged for. -/
def chargedEmissions (p : Fin n) (t : Technology n α) : α :=
  t.parameters[p].emissionsCoefficient / t.parameters[p].efficiency

/-- A cost that accounts for the price of the fuel and for a carbon tax. -/
structure Charged (p : Fin n) (tax : α) (t : Technology n α) : Prop where
  carbonTax : t.results[p].carbonTax = tax
  fuelPrice : t.fuel = none → t.results[p].fuelPrice = 0
  cost : t.results[p].cost = t.parameters[p].nonEnergyCost
    + (t.results[p].fuelPrice + tax * t.parameters[p].emissionsCoefficient)
      / t.parameters[p].efficiency

/-- An input and emissions that follow from the output, where only a fuel counts. -/
structure Metered (p : Fin n) (t : Technology n α) : Prop where
  input : t.results[p].input
    = if t.fuel.isSome then t.results[p].output / t.parameters[p].efficiency else 0
  emissions : t.results[p].emissions = t.results[p].input * t.parameters[p].emissionsCoefficient

/-- What a technology pays for its output: everything but energy, its fuel, and the carbon tax. -/
def expense (p : Fin n) (t : Technology n α) : α :=
  t.parameters[p].nonEnergyCost * t.results[p].output
    + t.results[p].fuelPrice * t.results[p].input + t.results[p].carbonTaxPaid

variable {t : Technology n α} {tax : α}

/-- Costs that were calculated stay as they are when something else is. -/
theorem Charged.update (h : t.Charged p tax) {f : TechnologyResult α → TechnologyResult α}
    (hf : TechnologyResult.SameCost (f t.results[p]) t.results[p]) :
    (t.update p f).Charged p tax := by
  refine ⟨?_, fun hfuel => ?_, ?_⟩ <;> rw [Technology.update, Series.getElem_modify_self]
  · exact hf.carbonTax.trans h.carbonTax
  · exact hf.fuelPrice.trans (h.fuelPrice hfuel)
  · rw [hf.cost, hf.fuelPrice]
    exact h.cost

theorem Charged.setShare (h : t.Charged p tax) (share : α) : (t.setShare p share).Charged p tax :=
  h.update ⟨⟨rfl⟩, rfl, rfl⟩

theorem Charged.setOutput (h : t.Charged p tax) (output : α) :
    (t.setOutput p output).Charged p tax :=
  h.update ⟨⟨rfl⟩, rfl, rfl⟩

theorem Charged.resetShareWeight (h : t.Charged p tax) :
    (t.resetShareWeight p).Charged p tax :=
  h.update ⟨⟨rfl⟩, rfl, rfl⟩

theorem Charged.takeUp (h : t.Charged p tax) (x : Contender α × α) :
    (t.takeUp p x).Charged p tax := by
  unfold Technology.takeUp
  refine Charged.setShare ?_ _
  split
  · exact h.update ⟨⟨rfl⟩, rfl, rfl⟩
  · exact h

theorem charged_calculateCost (h : t.results[p].carbonTax = tax) (prices : GoodTable α) :
    (t.calculateCost p (t.fuelPriceIn prices p)).Charged p tax := by
  refine ⟨?_, fun hfuel => ?_, ?_⟩ <;>
    simp only [calculateCost, Technology.update, Series.getElem_modify_self]
  · exact h
  · have hfuel : t.fuel = none := hfuel
    rw [fuelPriceIn, hfuel, Option.bind_none, Option.getD_none]
  · rw [h]

theorem metered_setOutput (t : Technology n α) (output : α) : (t.setOutput p output).Metered p := by
  constructor <;> simp [setOutput, Technology.update]

theorem Metered.setShare (h : t.Metered p) (share : α) : (t.setShare p share).Metered p := by
  refine ⟨?_, ?_⟩ <;> simp only [Technology.setShare, Technology.update, Series.getElem_modify_self]
  · exact h.input
  · exact h.emissions

/-- A technology with a fuel pays what it is charged; one without a fuel does not pay the tax. -/
theorem cost_mul_output (hcharged : t.Charged p tax) (hmetered : t.Metered p) :
    t.results[p].cost * t.results[p].output = t.expense p
      + if t.fuel = none then tax * (t.chargedEmissions p * t.results[p].output) else 0 := by
  rw [expense, TechnologyResult.carbonTaxPaid, hmetered.emissions, hmetered.input, hcharged.cost,
    hcharged.carbonTax, chargedEmissions]
  cases hfuel : t.fuel with
  | none =>
    simp only [hcharged.fuelPrice hfuel, Option.isSome_none, Bool.false_eq_true, if_true, if_false]
    ring
  | some fuel =>
    simp only [Option.isSome_some, reduceCtorEq, if_true, if_false]
    ring

end Technology

namespace Subsector

variable {s : Subsector n α} {tax : α}

/-- Handing values to technologies charges nobody anything else. -/
theorem charged_overVariable {β : Type} {f : Technology n α → β → Technology n α}
    (hf : ∀ t b, t.Charged p tax → (f t b).Charged p tax) {ts : List (Technology n α)} {bs : List β}
    (hlen : bs.length = (ts.filter fun t => !t.isFixed p).length)
    (h : ∀ t ∈ ts, t.Charged p tax) : ∀ t ∈ overVariable p f ts bs, t.Charged p tax :=
  forall_mem_overVariable hlen (fun t ht _ => h t ht) fun t ht _ b _ => hf t b (h t ht)

/-- Where the tax is known, a subsector that offers a price has charged its technologies. -/
theorem charged_offer {prices : GoodTable α}
    (htax : ∀ t ∈ s.technologies, t.results[p].carbonTax = tax)
    (h : (s.offer p prices).failure = none) :
    ∀ t ∈ (s.offer p prices).state.technologies, t.Charged p tax := by
  obtain ⟨hprepare, hstate⟩ := offer_eq_ok h
  obtain ⟨hcosts, hshared⟩ := Run.failure_andThen.1 hprepare
  obtain ⟨a, -, hlen, hshares⟩ := shareTechnologies_eq_ok hshared
  rw [hstate, prepare, Run.state_andThen hcosts, hshares]
  refine charged_overVariable (fun t share ht => ht.setShare share) hlen ?_
  refine List.forall_mem_map.2 fun t ht => ?_
  rw [technologies_calculateCosts hcosts] at ht
  obtain ⟨t, hmem, rfl⟩ := List.mem_map.1 ht
  exact (Technology.charged_calculateCost (htax t hmem) prices).resetShareWeight.setShare 0

theorem charged_recalibrateTechnologies {variableOutput : α}
    (h : ∀ t ∈ s.technologies, t.Charged p tax)
    (hok : (s.recalibrateTechnologies p variableOutput).failure = none) :
    ∀ t ∈ (s.recalibrateTechnologies p variableOutput).state.technologies, t.Charged p tax := by
  rcases recalibrateTechnologies_eq_ok hok with ⟨-, hstate⟩ | ⟨-, b, -, hlen, hstate⟩
  · rw [hstate]
    exact h
  · rw [hstate]
    exact charged_overVariable (fun t x ht => ht.takeUp x) hlen h

/-- What a technology produces is metered. -/
theorem charged_produce (h : ∀ t ∈ s.technologies, t.Charged p tax) (variableOutput : α) :
    ∀ t ∈ (s.produce p variableOutput).technologies, t.Charged p tax ∧ t.Metered p := by
  rw [produce_eq]
  exact List.forall_mem_map.2 fun t ht => ⟨(h t ht).setOutput _, t.metered_setOutput _⟩

theorem charged_takeStock (h : ∀ t ∈ s.technologies, t.Charged p tax ∧ t.Metered p) (output : α) :
    ∀ t ∈ (s.takeStock p output).technologies, t.Charged p tax ∧ t.Metered p := by
  rw [technologies_takeStock]
  split
  · exact List.forall_mem_map.2 fun t ht => ⟨(h t ht).1.setShare _, (h t ht).2.setShare _⟩
  · exact h

/-- Technologies that have produced their part of an output are charged what they were charged
before, and are metered. -/
theorem charged_setOutput {output : α} {calibrate : Bool}
    (h : ∀ t ∈ s.technologies, t.Charged p tax)
    (hok : (s.setOutput p output calibrate).failure = none) :
    ∀ t ∈ (s.setOutput p output calibrate).state.technologies,
      t.Charged p tax ∧ t.Metered p := by
  obtain ⟨scale, hserve⟩ := exists_serve_of_ok hok
  rw [hserve] at hok ⊢
  obtain ⟨hready, hstate⟩ := serve_eq_ok hok
  rw [hstate]
  refine charged_takeStock (charged_produce ?_ _) output
  cases calibrate with
  | true => exact charged_recalibrateTechnologies h hready
  | false => exact h

end Subsector

/-- What technologies pay for their outputs. -/
def expenses (p : Fin n) (ts : List (Technology n α)) : α :=
  (ts.map fun t => t.expense p).sum

/-- The emissions that technologies without a fuel are charged for. -/
def fuellessEmissions (p : Fin n) (ts : List (Technology n α)) : α :=
  ((ts.filter fun t => t.fuel = none).map fun t => t.chargedEmissions p * t.results[p].output).sum

/-- Technologies without a fuel are charged for no emissions if none of them is. -/
theorem fuellessEmissions_eq_zero_iff {ts : List (Technology n α)}
    (hdomain : ∀ t ∈ ts, t.parameters[p].InDomain) (hnonneg : ∀ t ∈ ts, 0 ≤ t.results[p].output) :
    fuellessEmissions p ts = 0 ↔ ∀ t ∈ ts, t.fuel = none →
      t.parameters[p].emissionsCoefficient = 0 ∨ t.results[p].output = 0 := by
  have hcharged : ∀ t ∈ ts, 0 ≤ t.chargedEmissions p * t.results[p].output := fun t ht =>
    mul_nonneg (div_nonneg (hdomain t ht).emissionsCoefficient_nonneg
      (hdomain t ht).efficiency_pos.le) (hnonneg t ht)
  have hzero : ∀ t ∈ ts, t.chargedEmissions p * t.results[p].output = 0 ↔
      t.parameters[p].emissionsCoefficient = 0 ∨ t.results[p].output = 0 := by
    intro t ht
    rw [mul_eq_zero, Technology.chargedEmissions, div_eq_zero_iff,
      or_iff_left (hdomain t ht).efficiency_pos.ne']
  constructor
  · intro hsum t ht hfuel
    have hmem : t ∈ ts.filter fun t => t.fuel = none := List.mem_filter.2 ⟨ht, by simpa using hfuel⟩
    refine (hzero t ht).1 (List.all_zero_of_le_zero_le_of_sum_eq_zero ?_ hsum
      (List.mem_map_of_mem hmem))
    exact List.forall_mem_map.2 fun t ht => hcharged t (List.mem_of_mem_filter ht)
  · intro hall
    refine List.sum_eq_zero (List.forall_mem_map.2 fun t ht => ?_)
    obtain ⟨hmem, hfuel⟩ := List.mem_filter.1 ht
    exact (hzero t hmem).2 (hall t hmem (by simpa using hfuel))

/-- What technologies cost exceeds what they pay by the tax on emissions without a fuel. -/
theorem totalCost_eq_expenses_add {ts : List (Technology n α)} {tax : α}
    (h : ∀ t ∈ ts, t.Charged p tax ∧ t.Metered p) :
    totalCost p ts = expenses p ts + tax * fuellessEmissions p ts := by
  have hsplit : (ts.map fun t =>
      if t.fuel = none then tax * (t.chargedEmissions p * t.results[p].output) else 0).sum
        = tax * fuellessEmissions p ts := by
    rw [List.sum_map_ite, fuellessEmissions, ← List.sum_map_mul_left]
    simp
  rw [totalCost, expenses, ← hsplit, ← List.sum_map_add]
  exact congrArg List.sum (List.map_congr_left fun t ht =>
    Technology.cost_mul_output (h t ht).1 (h t ht).2)

namespace Sector

variable {s : Sector n α} {demand tax : α} {prices : GoodTable α} {calibrate : Bool}

/-- In a sector whose tax is known every technology is charged and metered in the end. -/
theorem charged_calculate (htax : ∀ t ∈ s.technologies, t.results[p].carbonTax = tax)
    (h : (s.calculate p demand prices calibrate).failure = none) :
    ∀ t ∈ (s.calculate p demand prices calibrate).state.technologies,
      t.Charged p tax ∧ t.Metered p := by
  obtain ⟨hoffers, a, ha, hserved⟩ := calculate_succeeds_iff.1 h
  intro t ht
  obtain ⟨z, hz, ht⟩ := List.mem_flatMap.1 ht
  rw [subsectors_calculate h ha] at hz
  obtain ⟨y, hy, rfl⟩ := List.mem_map.1 hz
  refine Subsector.charged_setOutput ?_ (hserved y hy) t ht
  -- What is awarded to a subsector, and how its fixed supply is scaled, is no technology's matter.
  obtain ⟨x, hx, d, -, c, -, rfl⟩ := exists_award_of_mem hy
  rw [subsectors_contending hoffers] at hx
  obtain ⟨x, hmem, rfl⟩ := List.mem_map.1 hx
  rw [award_eq_update]
  exact Subsector.charged_offer (fun t ht => htax t (List.mem_flatMap.2 ⟨x, hmem, ht⟩))
    (hoffers x hmem)

omit [ExactQuantity α] in
theorem carbonTax_applyCarbonTax (s : Sector n α) (tax : α) :
    ∀ t ∈ (s.applyCarbonTax p tax).technologies, t.results[p].carbonTax = tax := by
  intro t ht
  obtain ⟨y, hy, ht⟩ := List.mem_flatMap.1 ht
  obtain ⟨x, -, rfl⟩ := List.mem_map.1 hy
  obtain ⟨t, -, rfl⟩ := List.mem_map.1 ht
  simp [Technology.setCarbonTax, Technology.update]

/-- After a carbon tax was applied, what the technologies of a calculated sector cost is what they
pay, and the tax on emissions that those without a fuel are charged for and do not have. The tax
that is charged is the one that is paid exactly if there is none, or if no technology without a fuel
produces something with an emissions coefficient. -/
theorem carbonTax_calculate (hdomain : ∀ t ∈ s.technologies, t.parameters[p].InDomain)
    (h : ((s.applyCarbonTax p tax).calculate p demand prices calibrate).failure = none) :
    let ts := ((s.applyCarbonTax p tax).calculate p demand prices calibrate).state.technologies
    totalCost p ts = expenses p ts + tax * fuellessEmissions p ts ∧
      (totalCost p ts = expenses p ts ↔ tax = 0 ∨ ∀ t ∈ ts, t.fuel = none →
        t.parameters[p].emissionsCoefficient = 0 ∨ t.results[p].output = 0) := by
  intro ts
  have hnonneg : ∀ t ∈ ts, 0 ≤ t.results[p].output := by
    refine (soldAtCost_calculate (forall_mem_of_forall₂
      (s.framed_applyCarbonTax (p := p) tax).technologies ?_) h).nonneg
    exact fun t ht _ ht' => ht'.parameters ▸ (hdomain t ht).fixedOutput_nonneg
  have hdomain : ∀ t ∈ ts, t.parameters[p].InDomain := by
    have hframed := (s.framed_applyCarbonTax (p := p) tax).trans
      (framed_calculate _ demand prices calibrate)
    exact forall_mem_of_forall₂ hframed.technologies fun t ht _ ht' =>
      ht'.parameters ▸ hdomain t ht
  have hcost := totalCost_eq_expenses_add (charged_calculate (s.carbonTax_applyCarbonTax tax) h)
  refine ⟨hcost, ?_⟩
  rw [hcost, add_eq_left, mul_eq_zero, fuellessEmissions_eq_zero_iff hdomain hnonneg]

/-- A sector with a turbine that has an emissions coefficient and no fuel. -/
def turbineSector : Sector 1 ℚ :=
  let turbine : Technology 1 ℚ :=
    { Technology.new 1 ⟨"turbine"⟩ none with
      parameters := Series.const 1
        { TechnologyParameters.default with nonEnergyCost := 1, emissionsCoefficient := 1 / 2 } }
  let wind : Subsector 1 ℚ :=
    { (Subsector.new 1 ⟨⟨"island"⟩, ⟨"power"⟩, ⟨"wind"⟩⟩ : Subsector 1 ℚ) with
      technologies := [turbine] }
  { (Sector.new 1 ⟨⟨"island"⟩, ⟨"power"⟩⟩ : Sector 1 ℚ) with subsectors := [wind] }

/-- The sector, calculated under a carbon tax. -/
def taxedTurbines : Run ℚ (Sector 1 ℚ) :=
  (turbineSector.applyCarbonTax 0 2).calculate 0 10 .empty false

theorem turbineSector_carbonTax :
    ((∀ t ∈ turbineSector.technologies, t.parameters[(0 : Fin 1)].InDomain) ∧
        taxedTurbines.failure = none) ∧
      totalCost 0 taxedTurbines.state.technologies
          = expenses 0 taxedTurbines.state.technologies
            + 2 * fuellessEmissions 0 taxedTurbines.state.technologies ∧
        (totalCost 0 taxedTurbines.state.technologies
            = expenses 0 taxedTurbines.state.technologies ↔
          (2 : ℚ) = 0 ∨ ∀ t ∈ taxedTurbines.state.technologies, t.fuel = none →
            t.parameters[(0 : Fin 1)].emissionsCoefficient = 0
              ∨ t.results[(0 : Fin 1)].output = 0) := by
  have hdomain : ∀ t ∈ turbineSector.technologies, t.parameters[(0 : Fin 1)].InDomain := by
    refine List.forall_mem_singleton.2 ?_
    rw [Series.getElem_const]
    exact ⟨zero_lt_one, by norm_num, nofun, nofun⟩
  have h : taxedTurbines.failure = none := Option.isNone_iff_eq_none.1 (by decide +kernel)
  exact ⟨⟨hdomain, h⟩, carbonTax_calculate hdomain h⟩

/-- The cost of the turbine contains a tax on emissions, but it emits nothing, and the tax is not
paid. -/
theorem turbineSector_overcharged :
    taxedTurbines.failure = none ∧ totalCost 0 taxedTurbines.state.technologies = 20 ∧
      expenses 0 taxedTurbines.state.technologies = 10 ∧
      totalCost 0 taxedTurbines.state.technologies
        ≠ expenses 0 taxedTurbines.state.technologies := by
  have h : taxedTurbines.failure = none := Option.isNone_iff_eq_none.1 (by decide +kernel)
  exact ⟨h, by decide +kernel, by decide +kernel, by decide +kernel⟩

end Sector

end NestedLogit
