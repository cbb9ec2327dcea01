import NestedLogit.Proofs.Calibration
import NestedLogit.Proofs.Choice.Limits
import NestedLogit.Proofs.Choice.Recalibration
import NestedLogit.Proofs.Sector.Marks

/-!
# The domain of technologies and subsectors

Input data give share weights, outputs and coefficients that are not negative, efficiencies that are
positive, and limits and fixed shares that are proportions. As long as they do, nothing that is
calculated from them is negative, and every share is a proportion, in whichever state a step leaves
a subsector.

## Main definitions

- `Technology.InputsInDomain`, `Subsector.InputsInDomain` — what is asked of the inputs
- `Technology.InDomain`, `Subsector.InDomain` — what holds of the inputs and of all results
- `Subsector.SharesWhole` — in the domain, with technologies that share out a whole

## Main statements

- `Subsector.SharesWhole.setOutput` — producing an output stays in the domain, however it ends
- `Subsector.InDomain.carryForward` — so does carrying share weights forward

## Design notes

That the share of a technology does not exceed one is due to conservation: no technology produces
more than all of them together. This takes shares of a whole to start with, which a subsector has
from the time its technologies have been shared out.
-/

namespace NestedLogit

variable {n : Nat} {α : Type} {p : Fin n} [ExactQuantity α]

/-- The parameters of a technology are in the domain of the input data. -/
structure TechnologyParameters.InDomain (q : TechnologyParameters α) : Prop where
  efficiency_pos : 0 < q.efficiency
  emissionsCoefficient_nonneg : 0 ≤ q.emissionsCoefficient
  fixedOutput_nonneg : ∀ x, q.fixedOutput = some x → 0 ≤ x
  calibrationOutput_nonneg : ∀ x, q.calibrationOutput = some x → 0 ≤ x

/-- Nothing that is calculated for a technology and stands for an amount is negative, and the share
is a proportion. -/
structure TechnologyResult.InDomain (r : TechnologyResult α) : Prop where
  shareWeight_nonneg : 0 ≤ r.shareWeight
  share_proportion : 0 ≤ r.share ∧ r.share ≤ 1
  output_nonneg : 0 ≤ r.output
  input_nonneg : 0 ≤ r.input
  emissions_nonneg : 0 ≤ r.emissions

/-- The inputs of a technology are in their domain. -/
structure Technology.InputsInDomain (t : Technology n α) : Prop where
  baseShareWeight_nonneg : ∀ q : Fin n, 0 ≤ t.baseShareWeight[q]
  parameters : ∀ q : Fin n, t.parameters[q].InDomain

/-- A technology whose inputs and results are in their domain in every period. -/
structure Technology.InDomain (t : Technology n α) : Prop extends t.InputsInDomain where
  results : ∀ q : Fin n, t.results[q].InDomain

/-- The parameters of a subsector are in the domain of the input data. -/
structure SubsectorParameters.InDomain (q : SubsectorParameters α) : Prop where
  capacityLimit_proportion : 0 ≤ q.capacityLimit ∧ q.capacityLimit ≤ 1
  fixedShare_proportion : ∀ x, q.fixedShare = some x → 0 ≤ x ∧ x ≤ 1

/-- Nothing that is calculated for a subsector and stands for an amount is negative, and the share
is a proportion. -/
structure SubsectorResult.InDomain (r : SubsectorResult α) : Prop where
  share_proportion : 0 ≤ r.share ∧ r.share ≤ 1
  shareWeight_nonneg : 0 ≤ r.shareWeight
  fixedSupplyScale_nonneg : 0 ≤ r.fixedSupplyScale
  input_nonneg : 0 ≤ r.input
  output_nonneg : 0 ≤ r.output
  emissions_nonneg : 0 ≤ r.emissions

/-- The inputs of a subsector and of its technologies are in their domain. -/
structure Subsector.InputsInDomain (s : Subsector n α) : Prop where
  baseShareWeight_nonneg : ∀ q : Fin n, 0 ≤ s.baseShareWeight[q]
  parameters : ∀ q : Fin n, s.parameters[q].InDomain
  technologies : ∀ t ∈ s.technologies, t.InputsInDomain

/-- A subsector whose inputs and results are in their domain in every period, with technologies of
which the same holds. -/
structure Subsector.InDomain (s : Subsector n α) : Prop where
  baseShareWeight_nonneg : ∀ q : Fin n, 0 ≤ s.baseShareWeight[q]
  parameters : ∀ q : Fin n, s.parameters[q].InDomain
  results : ∀ q : Fin n, s.results[q].InDomain
  technologies : ∀ t ∈ s.technologies, t.InDomain

namespace Technology.InDomain

variable {t : Technology n α}

theorem update (h : t.InDomain) {f : TechnologyResult α → TechnologyResult α}
    (hf : (f t.results[p]).InDomain) : (t.update p f).InDomain where
  toInputsInDomain := ⟨h.baseShareWeight_nonneg, h.parameters⟩
  results := Series.forall_modify h.results hf

theorem setCarbonTax (h : t.InDomain) (tax : α) : (t.setCarbonTax p tax).InDomain :=
  h.update { h.results p with }

theorem calculateCost (h : t.InDomain) (fuelPrice : α) : (t.calculateCost p fuelPrice).InDomain :=
  h.update { h.results p with }

theorem setShare (h : t.InDomain) {share : α} (hshare : 0 ≤ share ∧ share ≤ 1) :
    (t.setShare p share).InDomain :=
  h.update { h.results p with share_proportion := hshare }

theorem resetShareWeight (h : t.InDomain) : (t.resetShareWeight p).InDomain :=
  h.update { h.results p with shareWeight_nonneg := h.baseShareWeight_nonneg p }

theorem setCalibratedShareWeight (h : t.InDomain) {weight : α} (hweight : 0 ≤ weight) :
    (t.setCalibratedShareWeight p weight).InDomain :=
  h.update { h.results p with shareWeight_nonneg := hweight }

theorem takeUp (h : t.InDomain) {x : Contender α × α} (hweight : 0 ≤ x.1.shareWeight)
    (hshare : 0 ≤ x.2 ∧ x.2 ≤ 1) : (t.takeUp p x).InDomain := by
  unfold Technology.takeUp
  split
  · exact (h.setCalibratedShareWeight hweight).setShare hshare
  · exact h.setShare hshare

theorem setOutput (h : t.InDomain) {output : α} (houtput : 0 ≤ output) :
    (t.setOutput p output).InDomain := by
  have hinput : 0 ≤ if t.fuel.isSome then output / t.parameters[p].efficiency else 0 := by
    split
    · exact div_nonneg houtput (h.parameters p).efficiency_pos.le
    · exact le_rfl
  exact h.update { h.results p with
    output_nonneg := houtput
    input_nonneg := hinput
    emissions_nonneg := mul_nonneg hinput (h.parameters p).emissionsCoefficient_nonneg }

theorem carryForward (h : t.InDomain) (c : Calendar n) (p : Fin n) :
    (t.carryForward c p).InDomain := by
  unfold Technology.carryForward
  split
  · exact ⟨⟨fun q => Series.carryFrom_nonneg h.baseShareWeight_nonneg c p
      (h.results p).shareWeight_nonneg t.anchors q, h.parameters⟩, h.results⟩
  · exact h

end Technology.InDomain

namespace Subsector

variable {s : Subsector n α}

namespace InDomain

theorem update (h : s.InDomain) {f : SubsectorResult α → SubsectorResult α}
    (hf : (f s.results[p]).InDomain) : (s.update p f).InDomain :=
  { h with results := Series.forall_modify h.results hf }

theorem mapTechnologies (h : s.InDomain) {f : Technology n α → Technology n α}
    (hf : ∀ t ∈ s.technologies, (f t).InDomain) : (s.mapTechnologies f).InDomain :=
  { h with technologies := List.forall_mem_map.2 hf }

theorem applyCarbonTax (h : s.InDomain) (tax : α) : (s.applyCarbonTax p tax).InDomain :=
  h.mapTechnologies fun t ht => (h.technologies t ht).setCarbonTax tax

theorem scaleFixedSupply (h : s.InDomain) {factor : α} (hfactor : 0 ≤ factor) :
    (s.scaleFixedSupply p factor).InDomain :=
  h.update { h.results p with
    fixedSupplyScale_nonneg := mul_nonneg (h.results p).fixedSupplyScale_nonneg hfactor }

theorem carryForward (h : s.InDomain) (c : Calendar n) (p : Fin n) :
    (s.carryForward c p).InDomain where
  baseShareWeight_nonneg q := by
    rw [baseShareWeight_carryForward]
    split
    · exact Series.carryFrom_nonneg h.baseShareWeight_nonneg c p
        (h.results p).shareWeight_nonneg s.anchors q
    · exact h.baseShareWeight_nonneg q
  parameters := by
    rw [parameters_carryForward]
    exact h.parameters
  results := by
    rw [results_carryForward]
    exact h.results
  technologies := by
    rw [technologies_carryForward]
    exact List.forall_mem_map.2 fun t ht => (h.technologies t ht).carryForward c p

theorem calculateCosts (h : s.InDomain) (prices : GoodTable α) :
    (s.calculateCosts p prices).Ends InDomain InDomain := by
  have hunscaled : (s.update p fun r => { r with fixedSupplyScale := 1 }).InDomain :=
    h.update { h.results p with fixedSupplyScale_nonneg := zero_le_one }
  have hcosts : ∀ {ts : List (Technology n α)}, (∀ t ∈ ts, t.InDomain) →
      ({ s.update p fun r => { r with fixedSupplyScale := 1 } with
        technologies := ts } : Subsector n α).InDomain :=
    fun hts => { hunscaled with technologies := hts }
  refine Run.Ends.map (Run.Ends.each (P := Technology.InDomain) fun t ht =>
    ⟨h.technologies t ht, ?_⟩) (fun _ => hcosts) fun _ => hcosts
  have hcost := fun price => (h.technologies t ht).calculateCost (p := p) price
  split
  · exact .ok (hcost 0) (hcost 0)
  · split
    · exact .ok (hcost _) (hcost _)
    · exact .fail (h.technologies t ht) _

/-- Technologies that are recalibrated take up share weights and shares from the domain. -/
theorem recalibrateTechnologies (h : s.InDomain) {variableOutput : α}
    (hok : (s.recalibrateTechnologies p variableOutput).failure = none) :
    (s.recalibrateTechnologies p variableOutput).state.InDomain := by
  rcases recalibrateTechnologies_eq_ok hok with ⟨-, hstate⟩ | ⟨-, b, hb, hlen, hstate⟩
  · rw [hstate]
    exact h
  · have haims : ∀ x ∈ s.technologyAims p variableOutput, 0 ≤ x.contender.shareWeight :=
      List.forall_mem_map.2 fun t ht =>
        (h.technologies t (List.mem_filter.1 ht).1).baseShareWeight_nonneg p
    have hweights := shareWeight_nonneg_recalibrate haims
    have hshares := proportion_of_mem_shares (recalibrate_allocates hb).1
    have htaken := forall_mem_overVariable (f := Technology.takeUp p) hlen
      (fun t ht _ => h.technologies t ht) fun t ht _ x hx =>
        have hx := List.of_mem_zip hx
        (h.technologies t ht).takeUp (hweights x.1 hx.1) (hshares x.2 hx.2)
    rw [hstate]
    exact { h with technologies := htaken }

/-- Whatever is produced out of shares that are not negative is not negative. -/
theorem produce (h : s.InDomain) {variableOutput : α} (hvariable : 0 ≤ variableOutput) :
    (s.produce p variableOutput).InDomain := by
  refine h.mapTechnologies fun t ht => ?_
  have ht := h.technologies t ht
  split
  · next fixed hfixed =>
    exact ht.setOutput (mul_nonneg ((ht.parameters p).fixedOutput_nonneg fixed hfixed)
      (h.results p).fixedSupplyScale_nonneg)
  · exact ht.setOutput (mul_nonneg (ht.results p).share_proportion.1 hvariable)

/-- No technology has more than the whole of an output that they produce together. -/
theorem takeStock (h : s.InDomain) {output multiple : α}
    (hproduces : s.Produces p output multiple) : (s.takeStock p output).InDomain := by
  have hnonneg : ∀ x ∈ s.technologies.map fun t => t.results[p].output, 0 ≤ x :=
    List.forall_mem_map.2 hproduces.nonneg
  have houtput : 0 ≤ output := hproduces.sum_eq ▸ List.sum_nonneg hnonneg
  have hsums : ∀ f : TechnologyResult α → α, (∀ t ∈ s.technologies, 0 ≤ f t.results[p]) →
      (0 : α) ≤ Quantity.total (s.technologies.map fun t => f t.results[p]) := by
    intro f hf
    rw [Quantity.total_eq_sum]
    exact List.sum_nonneg (List.forall_mem_map.2 hf)
  have hinput := hsums (·.input) fun t ht => ((h.technologies t ht).results p).input_nonneg
  have hemissions :=
    hsums (·.emissions) fun t ht => ((h.technologies t ht).results p).emissions_nonneg
  have hstock :
      ((s.update p fun r =>
        { r with
          output := output
          input := Quantity.total
            (s.technologies.map fun t => t.results[p].input) }).calculateEmissions p).InDomain := by
    refine (h.update ?_).update ?_
    · exact { h.results p with output_nonneg := houtput, input_nonneg := hinput }
    · simp only [Subsector.update, Series.getElem_modify_self]
      exact { h.results p with
        output_nonneg := houtput
        input_nonneg := hinput
        emissions_nonneg := hemissions }
  unfold Subsector.takeStock
  dsimp only
  split
  · next hpos =>
    refine (hstock.update { hstock.results p with }).mapTechnologies fun t ht => ?_
    refine (h.technologies t ht).setShare ⟨div_nonneg (hproduces.nonneg t ht) houtput, ?_⟩
    -- The output of one technology is a summand of the output of all.
    rw [div_le_one hpos, ← hproduces.sum_eq]
    exact List.single_le_sum hnonneg _ (List.mem_map_of_mem ht)
  · exact hstock

end InDomain

/-- A subsector in the domain whose technologies that are not fixed have shares of a whole. -/
structure SharesWhole (p : Fin n) (s : Subsector n α) : Prop where
  inDomain : s.InDomain
  whole : MakeWhole (s.variableShares p)

namespace SharesWhole

theorem update (h : s.SharesWhole p) {f : SubsectorResult α → SubsectorResult α}
    (hf : (f s.results[p]).InDomain) : (s.update p f).SharesWhole p :=
  ⟨h.inDomain.update hf, h.whole⟩

theorem scaleFixedSupply (h : s.SharesWhole p) {factor : α} (hfactor : 0 ≤ factor) :
    (s.scaleFixedSupply p factor).SharesWhole p :=
  ⟨h.inDomain.scaleFixedSupply hfactor, h.whole⟩

theorem calculatePrice (h : s.SharesWhole p) : (s.calculatePrice p).SharesWhole p :=
  h.update { h.inDomain.results p with }

theorem ready (h : s.SharesWhole p) : s.Ready p where
  fixed_nonneg t ht := ((h.inDomain.technologies t ht).parameters p).fixedOutput_nonneg
  scale_nonneg := (h.inDomain.results p).fixedSupplyScale_nonneg
  whole := h.whole

theorem fitFixedSupply (h : s.SharesWhole p) (output : α) (calibrate : Bool) :
    (s.fitFixedSupply p output calibrate).SharesWhole p := by
  unfold Subsector.fitFixedSupply
  split
  · exact h.scaleFixedSupply (fixedSupplyScaleFactor_nonneg _ _)
  · exact h

/-- Once the technologies have been shared out, they share out a whole. -/
theorem shareTechnologies (h : s.InDomain) :
    (s.shareTechnologies p).Ends InDomain (SharesWhole p) := by
  obtain ⟨hok, hwhole⟩ := s.shareTechnologies_whole (p := p)
  suffices hstate : (s.shareTechnologies p).state.InDomain from
    ⟨hstate, fun _ => ⟨hstate, hwhole⟩⟩
  obtain ⟨a, ha, hlen, hstate⟩ := shareTechnologies_eq_ok hok
  have hreset : (s.resetShares p).InDomain := h.mapTechnologies fun t ht =>
    (h.technologies t ht).resetShareWeight.setShare ⟨le_rfl, zero_le_one⟩
  have hshares := proportion_of_mem_shares ha
  have hshared := forall_mem_overVariable (f := fun t share => t.setShare p share) hlen
    (fun t ht _ => hreset.technologies t ht) fun t ht _ share hshare =>
      (hreset.technologies t ht).setShare (hshares share hshare)
  rw [hstate]
  exact { h with technologies := hshared }

/-- An output that is served in full is served within the domain. -/
theorem serve (h : s.SharesWhole p) {output : α} {calibrate : Bool}
    (hproduces : (s.serve p output calibrate).failure = none →
      ∃ multiple, (s.serve p output calibrate).state.Produces p output multiple) :
    (s.serve p output calibrate).Ends InDomain InDomain := by
  have hready := (h.ready.recalibrated (Quantity.larger (output - s.fixedSupply p) 0) calibrate).1
  have hserved : (s.serve p output calibrate).failure = none :=
    Run.failure_andThen.2 ⟨hready, rfl⟩
  obtain ⟨multiple, hproduces⟩ := hproduces hserved
  suffices hstate : (s.serve p output calibrate).state.InDomain from ⟨hstate, fun _ => hstate⟩
  rw [(serve_eq_ok hserved).2] at hproduces ⊢
  have hvariable : 0 ≤ Quantity.larger (output - s.fixedSupply p) 0 := by
    rw [Quantity.larger_eq_max]
    exact le_max_right _ _
  refine InDomain.takeStock (InDomain.produce ?_ hvariable)
    ((produces_takeStock_iff output).1 hproduces)
  cases calibrate with
  | true => exact h.inDomain.recalibrateTechnologies hready
  | false => exact h.inDomain

/-- Producing an output stays in the domain, also if the output is refused. -/
theorem setOutput (h : s.SharesWhole p) {output : α} (houtput : 0 ≤ output) (calibrate : Bool) :
    (s.setOutput p output calibrate).Ends InDomain InDomain := by
  have hproduces := (response_setOutput h.ready houtput calibrate).produces
  have hfit := h.fitFixedSupply output calibrate
  rw [setOutput_eq s houtput] at hproduces ⊢
  -- The cases are those of the definition, and `hproduces` is about the same case.
  revert hproduces
  dsimp only
  split
  · intro hproduces
    exact (hfit.scaleFixedSupply (div_nonneg houtput hfit.ready.fixedSupply_nonneg)).serve hproduces
  · split
    · intro hproduces
      exact hfit.serve hproduces
    · intro _
      exact .fail hfit.inDomain _

end SharesWhole

end Subsector

end NestedLogit
