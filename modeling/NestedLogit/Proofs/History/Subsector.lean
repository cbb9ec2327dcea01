import NestedLogit.Proofs.History.Technology
import NestedLogit.Proofs.Run
import NestedLogit.Subsector

/-!
# Subsectors forget what was calculated before

The steps of a period for a subsector, taken in two subsectors with the same inputs: each step goes
the same way in both, and leaves them more alike.

## Main definitions

- `SubsectorResult.SameScale`, `SamePrice`, `SameAward`, `SameOutput` — what is the same after each
  step

## Main statements

- `Subsector.Alike.setOutput` — after the last step everything is the same
-/

namespace NestedLogit

variable {n : Nat} {α : Type} {p : Fin n}

open Series (At)
open TechnologyResult

namespace SubsectorResult

/-- Results that are the same once fixed supply is no longer scaled. -/
structure SameScale (r r' : SubsectorResult α) : Prop where
  fixedSupplyScale : r.fixedSupplyScale = r'.fixedSupplyScale

/-- Results that are the same once the price is calculated. -/
structure SamePrice (r r' : SubsectorResult α) : Prop extends SameScale r r' where
  price : r.price = r'.price
  fuelPrice : r.fuelPrice = r'.fuelPrice

/-- Results that are the same once the subsector has its share. -/
structure SameAward (r r' : SubsectorResult α) : Prop extends SamePrice r r' where
  share : r.share = r'.share
  shareWeight : r.shareWeight = r'.shareWeight
  capacityLimited : r.capacityLimited = r'.capacityLimited
  calibrated : r.calibrated = r'.calibrated

/-- Results that are the same once the output is set. -/
structure SameOutput (r r' : SubsectorResult α) : Prop extends SameAward r r' where
  input : r.input = r'.input
  output : r.output = r'.output

end SubsectorResult

open SubsectorResult

variable {T : Series n (TechnologyResult α) → Series n (TechnologyResult α) → Prop}
  {S : Series n (SubsectorResult α) → Series n (SubsectorResult α) → Prop}

/-- Averages depend on the costs only. -/
theorem weightedCosts_eq [Quantity α] {ts ts' : List (Technology n α)}
    (h : List.Forall₂ (Technology.Alike (At p SameCost)) ts ts') (weights : List α) :
    weightedCosts ts weights p = weightedCosts ts' weights p := by
  have hcosts : ts.map (·.results[p].cost) = ts'.map (·.results[p].cost) :=
    map_eq_of_forall₂ h fun ht => ht.results.cost
  have hfuels : ts.map (·.results[p].fuelPrice) = ts'.map (·.results[p].fuelPrice) :=
    map_eq_of_forall₂ h fun ht => ht.results.fuelPrice
  have hcosts' : ∀ total, List.zipWith (fun t w => t.results[p].cost * w / total) ts weights
      = List.zipWith (fun t w => t.results[p].cost * w / total) ts' weights :=
    fun _ => zipWith_eq_of_forall₂ h (fun ht => by rw [ht.results.cost]) weights
  have hfuels' : ∀ total, List.zipWith (fun t w => t.results[p].fuelPrice * w / total) ts weights
      = List.zipWith (fun t w => t.results[p].fuelPrice * w / total) ts' weights :=
    fun _ => zipWith_eq_of_forall₂ h (fun ht => by rw [ht.results.fuelPrice]) weights
  simp only [weightedCosts, isEmpty_eq_of_forall₂ h, h.length_eq, hcosts, hfuels, hcosts', hfuels']

/-- Technologies that are alike are fixed in the same places, so that they are handed the same
values. -/
theorem forall₂_overVariable {β : Type} {f : Technology n α → β → Technology n α}
    (hf : ∀ {t t'} b, t.Alike T t' → (f t b).Alike T (f t' b)) {ts ts' : List (Technology n α)}
    (h : List.Forall₂ (Technology.Alike T) ts ts') (bs : List β) :
    List.Forall₂ (Technology.Alike T) (overVariable p f ts bs) (overVariable p f ts' bs) := by
  induction h generalizing bs with
  | nil =>
    cases bs <;> exact .nil
  | cons ht h ih =>
    cases bs with
    | nil => exact .cons ht h
    | cons b bs =>
      rw [overVariable, overVariable, ht.isFixed]
      split
      · exact .cons ht (ih _)
      · exact .cons (hf b ht) (ih _)

namespace Subsector.Alike

variable {s s' : Subsector n α}

theorem sameScale (h : Alike T (At p SameAward) s s') : Alike T (At p SameScale) s s' :=
  { h with results := SamePrice.toSameScale (SameAward.toSamePrice h.results) }

theorem variableTechnologies (h : Alike T S s s') :
    List.Forall₂ (Technology.Alike T) (s.variableTechnologies p) (s'.variableTechnologies p) :=
  List.rel_filter (fun _ _ ht => by simp only [ht.isFixed]) h.technologies

theorem isAllFixed (h : Alike T S s s') : s.isAllFixed p = s'.isAllFixed p := by
  rw [Subsector.isAllFixed, Subsector.isAllFixed, isEmpty_eq_of_forall₂ h.technologies,
    all_eq_of_forall₂ h.technologies fun ht => ht.isFixed]

theorem isCalibratable (h : Alike T S s s') : s.isCalibratable p = s'.isCalibratable p := by
  rw [Subsector.isCalibratable, Subsector.isCalibratable,
    isEmpty_eq_of_forall₂ h.variableTechnologies,
    all_eq_of_forall₂ h.variableTechnologies fun ht => ht.isCalibrated]

theorem anchors (h : Alike T S s s') : s.anchors = s'.anchors := by
  refine Series.ext fun q => ?_
  rw [Subsector.anchors, Subsector.anchors, Series.getElem_ofFn, Series.getElem_ofFn,
    h.isCalibratable, h.parameters]

theorem applyCarbonTax (h : Alike T S s s') (tax : α) :
    Alike (At p SameTax) S (s.applyCarbonTax p tax) (s'.applyCarbonTax p tax) :=
  h.mapTechnologies fun ht => ht.setCarbonTax tax

variable [Quantity α]

theorem calibrationOutput (h : Alike T S s s') :
    s.calibrationOutput p = s'.calibrationOutput p := by
  rw [Subsector.calibrationOutput, Subsector.calibrationOutput,
    filterMap_eq_of_forall₂ h.variableTechnologies fun ht => by rw [ht.parameters]]

theorem fixedSupply (h : Alike T (At p SameScale) s s') :
    s.fixedSupply p = s'.fixedSupply p := by
  rw [Subsector.fixedSupply, Subsector.fixedSupply, h.results.fixedSupplyScale,
    filterMap_eq_of_forall₂ h.technologies fun ht => by rw [ht.parameters]]

theorem calibrationTarget (h : Alike T (At p SameScale) s s') :
    s.calibrationTarget p = s'.calibrationTarget p := by
  rw [Subsector.calibrationTarget, Subsector.calibrationTarget, h.isCalibratable,
    h.calibrationOutput, h.fixedSupply]

omit [Quantity α] in
theorem contender (h : Alike T (At p SamePrice) s s') : s.contender p = s'.contender p := by
  rw [Subsector.contender, Subsector.contender, h.baseShareWeight, h.parameters,
    h.results.price]

omit [Quantity α] in
theorem technologyPath (h : Alike T S s s')
    {T' : Series n (TechnologyResult α) → Series n (TechnologyResult α) → Prop}
    {t t' : Technology n α} (ht : t.Alike T' t') : s.technologyPath t = s'.technologyPath t' := by
  rw [Subsector.technologyPath, Subsector.technologyPath, h.regionId, h.sectorId, h.id, ht.id]

theorem calculateCosts (h : Alike (At p SameTax) S s s') {prices prices' : GoodTable α}
    (hprices : ∀ good, prices.amount? good p = prices'.amount? good p) :
    Run.Agree (Alike (At p SameCost) (At p SameScale)) (s.calculateCosts p prices)
      (s'.calculateCosts p prices') := by
  have hscaled : Alike (At p SameTax) (At p SameScale)
      (s.update p fun r => { r with fixedSupplyScale := 1 })
      (s'.update p fun r => { r with fixedSupplyScale := 1 }) := h.update ⟨rfl⟩
  refine Run.Agree.map (Run.Agree.each (fun {t t'} ht => ?_) h.technologies) fun hts =>
    hscaled.withTechnologies hts
  -- The fuel is an input, so that both find the same price for it, or none.
  rw [← ht.fuel]
  cases t.fuel with
  | none => exact .ok (ht.calculateCost 0)
  | some fuel =>
    dsimp only
    rw [← hprices fuel]
    cases prices.amount? fuel p with
    | none => exact .fail (by rw [hscaled.technologyPath ht])
    | some price => exact .ok (ht.calculateCost price)

theorem shareTechnologies (h : Alike (At p SameCost) S s s') :
    Run.Agree (Alike (At p SameShare) S) (s.shareTechnologies p) (s'.shareTechnologies p) := by
  have hcontenders : (s.variableTechnologies p).map (·.contender p)
      = (s'.variableTechnologies p).map (·.contender p) :=
    map_eq_of_forall₂ h.variableTechnologies fun ht => ht.contender
  -- Weights are reset and shares are zero before they are set, whatever they were.
  have hreset : List.Forall₂ (Technology.Alike (At p SameShare))
      (s.technologies.map fun t => (t.resetShareWeight p).setShare p 0)
      (s'.technologies.map fun t => (t.resetShareWeight p).setShare p 0) :=
    List.rel_map (fun _ _ ht => ht.resetShareWeight.setShare rfl) h.technologies
  unfold Subsector.shareTechnologies
  rw [← hcontenders, ← h.path]
  cases allocate ((s.variableTechnologies p).map (·.contender p)) with
  | error e => exact .fail rfl
  | ok allocation =>
    exact ⟨rfl, rfl, fun _ => h.withTechnologies
      (forall₂_overVariable (fun share ht => ht.changeShare share) hreset allocation.shares)⟩

theorem calculatePrice (h : Alike (At p SameShare) (At p SameScale) s s') :
    Alike (At p SameShare) (At p SamePrice) (s.calculatePrice p) (s'.calculatePrice p) := by
  have hr : SameScale s.results[p] s'.results[p] := h.results
  have hcosts := h.technologies.imp fun _ _ ht => ht.sameCost
  have hweights : ∀ allFixed : Bool,
      (s.technologies.map fun t =>
        if allFixed then t.parameters[p].fixedOutput.getD 0 else t.results[p].share)
      = s'.technologies.map fun t =>
        if allFixed then t.parameters[p].fixedOutput.getD 0 else t.results[p].share :=
    fun _ => map_eq_of_forall₂ h.technologies fun ht => by rw [ht.parameters, ht.results.share]
  refine h.update ⟨⟨hr.fixedSupplyScale⟩, ?_, ?_⟩ <;>
    rw [h.isAllFixed, hweights, weightedCosts_eq hcosts]

theorem scaleFixedSupply (h : Alike T (At p SameAward) s s') (factor : α) :
    Alike T (At p SameAward) (s.scaleFixedSupply p factor) (s'.scaleFixedSupply p factor) := by
  have hr : SameAward s.results[p] s'.results[p] := h.results
  exact h.update ⟨⟨⟨congrArg (· * factor) hr.fixedSupplyScale⟩, hr.price, hr.fuelPrice⟩, hr.share,
    hr.shareWeight, hr.capacityLimited, hr.calibrated⟩

theorem recalibrateTechnologies (h : Alike (At p SameShare) S s s') (variableOutput : α) :
    Run.Agree (Alike (At p SameShare) S) (s.recalibrateTechnologies p variableOutput)
      (s'.recalibrateTechnologies p variableOutput) := by
  have hcalibrated : (s.variableTechnologies p).any (·.isCalibrated p)
      = (s'.variableTechnologies p).any (·.isCalibrated p) :=
    any_eq_of_forall₂ h.variableTechnologies fun ht => ht.isCalibrated
  have haims : ∀ target : α → α,
      ((s.variableTechnologies p).map fun t =>
        (⟨t.contender p, t.parameters[p].calibrationOutput.map target⟩ : Aim α))
      = (s'.variableTechnologies p).map fun t =>
        ⟨t.contender p, t.parameters[p].calibrationOutput.map target⟩ :=
    fun _ => map_eq_of_forall₂ h.variableTechnologies fun ht => by
      rw [ht.sameCost.contender, ht.parameters]
  unfold Subsector.recalibrateTechnologies
  dsimp only
  rw [hcalibrated, haims, h.path]
  split
  · exact .ok h
  · split
    · exact .fail rfl
    · refine .ok (h.withTechnologies (forall₂_overVariable (fun x ht => ?_) h.technologies _))
      rw [ht.isCalibrated]
      split
      · exact (ht.setCalibratedShareWeight x.1.shareWeight).changeShare x.2
      · exact ht.changeShare x.2

theorem produce (h : Alike (At p SameShare) (At p SameAward) s s') (variableOutput : α) :
    Alike (At p Eq) (At p SameAward) (s.produce p variableOutput)
      (s'.produce p variableOutput) := by
  refine h.mapTechnologies fun {t t'} ht => ?_
  rw [← ht.parameters, ← h.results.fixedSupplyScale, ← ht.results.share]
  cases t.parameters[p].fixedOutput with
  | some fixed => exact ht.setOutput rfl
  | none => exact ht.setOutput rfl

theorem calculateEmissions (h : Alike (At p Eq) (At p SameOutput) s s') :
    Alike (At p Eq) (At p Eq) (s.calculateEmissions p) (s'.calculateEmissions p) := by
  have hr : SameOutput s.results[p] s'.results[p] := h.results
  have hemissions : s.technologies.map (·.results[p].emissions)
      = s'.technologies.map (·.results[p].emissions) :=
    map_eq_of_forall₂ h.technologies fun ht => congrArg _ ht.results
  have htax : s.technologies.map (·.results[p].carbonTaxPaid)
      = s'.technologies.map (·.results[p].carbonTaxPaid) :=
    map_eq_of_forall₂ h.technologies fun ht => congrArg _ ht.results
  refine h.update ?_
  rw [hemissions, htax, hr.share, hr.shareWeight, hr.capacityLimited, hr.calibrated,
    hr.fixedSupplyScale, hr.price, hr.fuelPrice, hr.input, hr.output]

/-- The averages over what is produced are the same where the technologies are the same. -/
theorem averageOutput (h : Alike (At p Eq) (At p Eq) s s') :
    let averages (s : Subsector n α) :=
      weightedCosts s.technologies (s.technologies.map (·.results[p].output)) p
    Alike (At p Eq) (At p Eq)
      (s.update p fun r => { r with price := (averages s).1, fuelPrice := (averages s).2 })
      (s'.update p fun r => { r with price := (averages s').1, fuelPrice := (averages s').2 }) := by
  have hr : s.results[p] = s'.results[p] := h.results
  have hcosts := h.technologies.imp fun _ _ ht => ht.sameCost_of_eq
  have hweights : s.technologies.map (·.results[p].output)
      = s'.technologies.map (·.results[p].output) :=
    map_eq_of_forall₂ h.technologies fun ht => congrArg _ ht.results
  refine h.update ?_
  dsimp only
  rw [hr, hweights, weightedCosts_eq hcosts]

/-- The sums over the technologies leave no trace of earlier results. -/
theorem takeStock (h : Alike (At p Eq) (At p SameAward) s s') (output : α) :
    Alike (At p Eq) (At p Eq) (s.takeStock p output) (s'.takeStock p output) := by
  have hr : SameAward s.results[p] s'.results[p] := h.results
  have hinput : s.technologies.map (·.results[p].input)
      = s'.technologies.map (·.results[p].input) :=
    map_eq_of_forall₂ h.technologies fun ht => congrArg _ ht.results
  have houtput : ∀ i i' : α, i = i' → Alike (At p Eq) (At p SameOutput)
      (s.update p fun r => { r with output := output, input := i })
      (s'.update p fun r => { r with output := output, input := i' }) := fun _ _ hi =>
    h.update ⟨⟨⟨⟨hr.fixedSupplyScale⟩, hr.price, hr.fuelPrice⟩, hr.share, hr.shareWeight,
      hr.capacityLimited, hr.calibrated⟩, hi, rfl⟩
  have hstock := (houtput _ _ (congrArg Quantity.total hinput)).calculateEmissions
  unfold Subsector.takeStock
  dsimp only
  split
  · refine hstock.averageOutput.mapTechnologies fun {t t'} ht => ht.update ?_
    have ht : t.results[p] = t'.results[p] := ht.results
    rw [ht]
  · exact hstock

/-- Producing an output goes the same way whatever was calculated before. -/
theorem serve (h : Alike (At p SameShare) (At p SameAward) s s') (output : α) (calibrate : Bool) :
    Run.Agree (Alike (At p Eq) (At p Eq)) (s.serve p output calibrate)
      (s'.serve p output calibrate) := by
  have hsupply := h.sameScale.fixedSupply
  unfold Subsector.serve
  dsimp only
  rw [hsupply]
  refine Run.Agree.andThen (R := Alike (At p SameShare) (At p SameAward)) ?_
    fun hs => .ok ((hs.produce _).takeStock output)
  split
  · exact h.recalibrateTechnologies _
  · exact .ok h

theorem fitFixedSupply (h : Alike T (At p SameAward) s s') (output : α) (calibrate : Bool) :
    Alike T (At p SameAward) (s.fitFixedSupply p output calibrate)
      (s'.fitFixedSupply p output calibrate) := by
  have hsupply := h.sameScale.fixedSupply
  unfold Subsector.fitFixedSupply
  rw [h.isCalibratable, h.calibrationOutput, hsupply]
  split
  · exact h.scaleFixedSupply _
  · exact h

/-- Setting an output goes the same way whatever was calculated before, and in the end subsectors
with the same inputs are the same. -/
theorem setOutput (h : Alike (At p SameShare) (At p SameAward) s s') {output output' : α}
    (ho : output = output') (calibrate : Bool) :
    Run.Agree (Alike (At p Eq) (At p Eq)) (s.setOutput p output calibrate)
      (s'.setOutput p output' calibrate) := by
  subst ho
  unfold Subsector.setOutput
  split
  · exact .fail (by rw [h.path])
  · have hfit := h.fitFixedSupply output calibrate
    have hsupply := hfit.sameScale.fixedSupply
    have hchoice := any_eq_of_forall₂ (f := fun t => !t.isFixed p) (g := fun t => !t.isFixed p)
      hfit.technologies fun ht => by rw [ht.isFixed]
    -- The branches are told apart by fixed supply and choice, which are the same in both.
    dsimp only
    rw [hsupply, hchoice]
    split
    · exact (hfit.scaleFixedSupply _).serve output calibrate
    · split
      · exact hfit.serve output calibrate
      · exact .fail (by rw [hfit.path])

end Subsector.Alike

end NestedLogit
