import NestedLogit.Proofs.Subsector.Settled

/-!
# Subsectors that produce multiples of the same outputs

Two subsectors with the same inputs that produce the same outputs but for a factor differ in
nothing but this factor: it scales what is produced, consumed, emitted and paid in tax, and cancels
out of shares and prices. A subsector all of whose technologies are fixed produces whatever multiple
of its fixed outputs it is asked for.

## Main definitions

- `TechnologyResult.Scaled`, `SubsectorResult.Scaled` — results that are the same but for a factor
- `Technology.Scaled`, `Subsector.Scaled` — technologies and subsectors with such results
- `Subsector.assigned` — a subsector with a share and a scale for its fixed supply

## Main statements

- `Subsector.Alike.takeStock_scaled` — stock of outputs that are scaled
- `Subsector.setOutput_assigned` — what a subsector of fixed technologies produces
- `Subsector.assigned_scaled` — and what it produces of another output
-/

namespace NestedLogit

variable {n : Nat} {α : Type} {p : Fin n}

open Series (At)

section Results

variable [Quantity α]

/-- Results of a technology that are the same but for the size of its output. -/
structure TechnologyResult.Scaled (factor : α) (r r' : TechnologyResult α) : Prop
    extends TechnologyResult.SameShare r r' where
  output : r'.output = r.output * factor
  input : r'.input = r.input * factor
  emissions : r'.emissions = r.emissions * factor

/-- Results of a subsector that is about to produce, which are the same but for its share. The scale
of fixed supply does not count. -/
structure SubsectorResult.ScaledShare (factor : α) (r r' : SubsectorResult α) : Prop where
  price : r.price = r'.price
  fuelPrice : r.fuelPrice = r'.fuelPrice
  shareWeight : r.shareWeight = r'.shareWeight
  capacityLimited : r.capacityLimited = r'.capacityLimited
  calibrated : r.calibrated = r'.calibrated
  share : r'.share = r.share * factor

/-- Results of a subsector that are the same but for the size of its share and its output. -/
structure SubsectorResult.Scaled (factor : α) (r r' : SubsectorResult α) : Prop
    extends SubsectorResult.ScaledShare factor r r' where
  input : r'.input = r.input * factor
  output : r'.output = r.output * factor
  emissions : r'.emissions = r.emissions * factor
  carbonTaxPaid : r'.carbonTaxPaid = r.carbonTaxPaid * factor

/-- Technologies whose results of a period are the same but for a factor. -/
abbrev Technology.Scaled (p : Fin n) (factor : α) : Technology n α → Technology n α → Prop :=
  Technology.Alike (At p (TechnologyResult.Scaled factor))

/-- Subsectors whose results of a period are the same but for a factor. -/
abbrev Subsector.Scaled (p : Fin n) (factor : α) : Subsector n α → Subsector n α → Prop :=
  Subsector.Alike (At p (TechnologyResult.Scaled factor)) (At p (SubsectorResult.Scaled factor))

end Results

variable [ExactQuantity α] {factor : α}

namespace Technology

variable {t t' : Technology n α}

theorem scaled_setOutput (t : Technology n α) (output : α) :
    (t.setOutput p output).Scaled p factor (t.setOutput p (output * factor)) := by
  refine ⟨rfl, rfl, rfl, rfl, Series.at_modify ⟨⟨⟨⟨⟨rfl⟩, rfl, rfl⟩, rfl, rfl⟩, rfl⟩, rfl, ?_, ?_⟩⟩
  · split
    · exact mul_div_right_comm output factor _
    · exact (zero_mul factor).symm
  · split
    · ring
    · ring

theorem Scaled.setShare (h : t.Scaled p factor t') {share share' : α} (hshare : share = share') :
    (t.setShare p share).Scaled p factor (t'.setShare p share') := by
  have hr : TechnologyResult.Scaled factor t.results[p] t'.results[p] := h.results
  exact h.update ⟨⟨⟨⟨⟨hr.carbonTax⟩, hr.fuelPrice, hr.cost⟩, hr.shareWeight, hr.recalibrated⟩,
    hshare⟩, hr.output, hr.input, hr.emissions⟩

end Technology

namespace Subsector

variable {s s' : Subsector n α}

/-- Sums over technologies are scaled if every summand is. -/
theorem total_scaled {β : Type} {R : β → β → Prop} {xs ys : List β} (h : List.Forall₂ R xs ys)
    {f : β → α} (hf : ∀ {x y}, R x y → f y = f x * factor) :
    Quantity.total (ys.map f) = Quantity.total (xs.map f) * factor := by
  rw [Quantity.total_eq_sum, Quantity.total_eq_sum, ← List.sum_map_mul_right]
  exact congrArg List.sum (map_eq_of_forall₂ h fun hxy => (hf hxy).symm).symm

/-- What taking stock of an output finds out. -/
def stock (s : Subsector n α) (p : Fin n) (output : α) (r : SubsectorResult α) :
    SubsectorResult α :=
  let averages := weightedCosts s.technologies (s.technologies.map fun t => t.results[p].output) p
  { r with
    output := output
    input := Quantity.total (s.technologies.map fun t => t.results[p].input)
    emissions := Quantity.total (s.technologies.map fun t => t.results[p].emissions)
    carbonTaxPaid := Quantity.total (s.technologies.map fun t => t.results[p].carbonTaxPaid)
    price := if 0 < output then averages.1 else r.price
    fuelPrice := if 0 < output then averages.2 else r.fuelPrice }

theorem takeStock_eq (s : Subsector n α) (output : α) :
    s.takeStock p output =
      { s.update p (s.stock p output) with
        technologies := if 0 < output then
          s.technologies.map fun t => t.setShare p (t.results[p].output / output)
          else s.technologies } := by
  unfold takeStock stock
  dsimp only
  split <;>
    simp only [mapTechnologies, calculateEmissions, update, Series.modify_modify]

/-- Averages that are weighted by outputs do not notice that these are scaled. -/
theorem weightedCosts_scaled (hfactor : 0 < factor) {ts ts' : List (Technology n α)}
    (h : List.Forall₂ (Technology.Scaled p factor) ts ts') :
    weightedCosts ts' (ts'.map fun t => t.results[p].output) p
      = weightedCosts ts (ts.map fun t => t.results[p].output) p := by
  have hcosts : List.Forall₂ (Technology.Alike (At p TechnologyResult.SameCost)) ts ts' :=
    h.imp fun _ _ ht => ht.mono fun hr => hr.toSameShare.toSameWeight.toSameCost
  have hweights : (ts'.map fun t => t.results[p].output)
      = (ts.map fun t => t.results[p].output).map (· * factor) := by
    rw [List.map_map]
    exact (map_eq_of_forall₂ h fun ht => ht.results.output.symm).symm
  rw [← weightedCosts_eq hcosts, hweights, weightedCosts_eq_averages, weightedCosts_eq_averages,
    weightedAverage_scale _ _ hfactor, weightedAverage_scale _ _ hfactor]

/-- What is found out about outputs that are scaled is the same but for the sums. -/
theorem Alike.stock_scaled (hfactor : 0 < factor)
    (h : Alike (At p (TechnologyResult.Scaled factor)) (At p (SubsectorResult.ScaledShare factor))
      s s') (output : α) :
    SubsectorResult.Scaled factor (s.stock p output s.results[p])
      (s'.stock p (output * factor) s'.results[p]) := by
  have hr : SubsectorResult.ScaledShare factor s.results[p] s'.results[p] := h.results
  have hpos : 0 < output * factor ↔ 0 < output := mul_pos_iff_of_pos_right hfactor
  have haverages := weightedCosts_scaled hfactor h.technologies
  refine ⟨⟨?_, ?_, hr.shareWeight, hr.capacityLimited, hr.calibrated, hr.share⟩, ?_, rfl, ?_, ?_⟩
  · simp only [stock, hpos, haverages, hr.price]
  · simp only [stock, hpos, haverages, hr.fuelPrice]
  · exact total_scaled h.technologies fun ht => ht.results.input
  · exact total_scaled h.technologies fun ht => ht.results.emissions
  · refine total_scaled h.technologies fun {t t'} ht => ?_
    have htr : TechnologyResult.Scaled factor t.results[p] t'.results[p] := ht.results
    rw [TechnologyResult.carbonTaxPaid, TechnologyResult.carbonTaxPaid, htr.emissions,
      htr.carbonTax, mul_assoc]

/-- Taking stock of outputs that are scaled gives the same shares and the same prices. -/
theorem Alike.takeStock_scaled (hfactor : 0 < factor)
    (h : Alike (At p (TechnologyResult.Scaled factor)) (At p (SubsectorResult.ScaledShare factor))
      s s') (output : α) :
    (s.takeStock p output).Scaled p factor (s'.takeStock p (output * factor)) := by
  have hpos : 0 < output * factor ↔ 0 < output := mul_pos_iff_of_pos_right hfactor
  rw [takeStock_eq, takeStock_eq]
  refine Alike.withTechnologies (h.update (h.stock_scaled hfactor output)) ?_
  simp only [hpos]
  split
  · refine List.rel_map (fun t t' ht => ?_) h.technologies
    have htr : TechnologyResult.Scaled factor t.results[p] t'.results[p] := ht.results
    refine Technology.Scaled.setShare ht ?_
    rw [htr.output, mul_div_mul_right _ _ hfactor.ne']
  · exact h.technologies

section Fixed

/-- The sum of the fixed outputs, before any scaling. -/
def fixedOutputs (s : Subsector n α) (p : Fin n) : α :=
  (s.technologies.map fun t => t.parameters[p].fixedOutput.getD 0).sum

/-- A subsector that competed with its base share weight and was given a share, with a scale for its
fixed supply. -/
def assigned (s : Subsector n α) (p : Fin n) (scale share : α) : Subsector n α :=
  s.update p fun r =>
    { r with
      share := share
      shareWeight := s.baseShareWeight[p]
      capacityLimited := false
      calibrated := false
      fixedSupplyScale := scale }

theorem scaleFixedSupply_assigned (s : Subsector n α) (scale share factor : α) :
    (s.assigned p scale share).scaleFixedSupply p factor
      = s.assigned p (scale * factor) share := by
  simp only [assigned, scaleFixedSupply, update, Series.modify_modify]

theorem fixedSupply_assigned (s : Subsector n α) (scale share : α) :
    (s.assigned p scale share).fixedSupply p = s.fixedOutputs p * scale := by
  rw [fixedSupply_eq_sum]
  simp [assigned, update, fixedOutputs]

omit [ExactQuantity α] in
theorem isFixed_of_isAllFixed (hall : s.isAllFixed p = true) :
    ∀ t ∈ s.technologies, t.isFixed p = true := by
  rw [isAllFixed, Bool.and_eq_true, List.all_eq_true] at hall
  exact hall.2

omit [ExactQuantity α] in
theorem variableTechnologies_of_isAllFixed (hall : s.isAllFixed p = true) :
    s.variableTechnologies p = [] :=
  List.filter_eq_nil_iff.2 fun t ht => by simp [isFixed_of_isAllFixed hall t ht]

theorem fixedOutput_nonneg
    (hfixed : ∀ t ∈ s.technologies, ∀ fixed, t.parameters[p].fixedOutput = some fixed → 0 ≤ fixed) :
    ∀ t ∈ s.technologies, 0 ≤ t.parameters[p].fixedOutput.getD 0 := by
  intro t ht
  cases hsome : t.parameters[p].fixedOutput with
  | none => exact le_rfl
  | some fixed => exact hfixed t ht fixed hsome

/-- Technologies that are all fixed take no part in a choice and ask for no recalibration. -/
theorem serve_of_isAllFixed (hall : s.isAllFixed p = true) (output : α) (calibrate : Bool) :
    s.serve p output calibrate = .ok ((s.produce p 0).takeStock p output) := by
  have hproduce : ∀ variableOutput : α, s.produce p variableOutput = s.produce p 0 := by
    intro variableOutput
    refine congrArg (fun ts => ({ s with technologies := ts } : Subsector n α))
      (List.map_congr_left fun t ht => ?_)
    obtain ⟨fixed, hfixed⟩ := Option.isSome_iff_exists.1 (isFixed_of_isAllFixed hall t ht)
    rw [hfixed]
  have hready : ∀ variableOutput : α, (if calibrate then s.recalibrateTechnologies p variableOutput
      else Run.ok s) = Run.ok s := by
    intro variableOutput
    split
    · rw [recalibrateTechnologies_eq, variableTechnologies_of_isAllFixed hall]
      exact if_pos (Bool.or_true _)
    · rfl
  unfold serve
  dsimp only
  rw [hready, Run.andThen_of_none rfl]
  exact congrArg Run.ok (congrArg (fun s : Subsector n α => s.takeStock p output) (hproduce _))

/-- A subsector of fixed technologies produces whatever it is asked for at one multiple of the fixed
outputs, unless these amount to nothing and something is asked for. -/
theorem setOutput_assigned (hall : s.isAllFixed p = true) (hnonneg : 0 ≤ s.fixedOutputs p)
    {scale share output : α} (hscale : 0 < scale) (houtput : 0 ≤ output)
    (hable : s.fixedOutputs p = 0 → output = 0) (calibrate : Bool) :
    ∃ multiple, s.fixedOutputs p * multiple = output ∧
      (s.assigned p scale share).setOutput p output calibrate
        = .ok (((s.assigned p multiple share).produce p 0).takeStock p output) := by
  have hassigned : ∀ scale : α, (s.assigned p scale share).isAllFixed p = true := fun _ => hall
  have hnone := variableTechnologies_of_isAllFixed (hassigned scale)
  rw [setOutput_eq _ houtput]
  dsimp only
  rw [fitFixedSupply_eq_self (.inr hnone), fixedSupply_assigned, scaleFixedSupply_assigned]
  rcases hnonneg.eq_or_lt with hzero | hpos
  · -- There is no fixed supply, and nothing is asked for.
    have hnothing := hable hzero.symm
    rw [← hzero, hnothing, zero_mul, if_neg (by simp), if_pos (.inr le_rfl),
      serve_of_isAllFixed (hassigned scale)]
    exact ⟨scale, zero_mul _, rfl⟩
  · have hsupply : 0 < s.fixedOutputs p * scale := mul_pos hpos hscale
    rw [if_pos (.inr ⟨hnone, hsupply⟩), serve_of_isAllFixed (hassigned _)]
    refine ⟨_, ?_, rfl⟩
    rw [← mul_assoc, mul_div_cancel₀ _ hsupply.ne']

/-- At two multiples of the fixed outputs, one of which is the other times a factor, everything is
the same but for the factor. -/
theorem assigned_scaled (hall : s.isAllFixed p = true)
    (hfixed : ∀ t ∈ s.technologies, ∀ fixed, t.parameters[p].fixedOutput = some fixed → 0 ≤ fixed)
    (hfactor : 0 < factor) {multiple multiple' share output : α}
    (h : s.fixedOutputs p * multiple = output)
    (h' : s.fixedOutputs p * multiple' = output * factor) :
    Scaled p factor (((s.assigned p multiple share).produce p 0).takeStock p output)
      (((s.assigned p multiple' (share * factor)).produce p 0).takeStock p (output * factor)) := by
  have hsupply : ∀ t ∈ s.technologies, t.supply p multiple' 0 = t.supply p multiple 0 * factor := by
    intro t ht
    obtain ⟨fixed, hsome⟩ := Option.isSome_iff_exists.1 (isFixed_of_isAllFixed hall t ht)
    simp only [Technology.supply, hsome]
    by_cases hzero : s.fixedOutputs p = 0
    · have hmem := List.all_zero_of_le_zero_le_of_sum_eq_zero
        (List.forall_mem_map.2 (fixedOutput_nonneg hfixed)) hzero (List.mem_map_of_mem ht)
      rw [hsome, Option.getD_some] at hmem
      rw [hmem, zero_mul, zero_mul, zero_mul]
    · have hmultiple : multiple' = multiple * factor := by
        refine mul_left_cancel₀ hzero ?_
        rw [h', ← h, mul_assoc]
      rw [hmultiple, mul_assoc]
  refine Alike.takeStock_scaled hfactor ?_ output
  have hresults : At p (SubsectorResult.ScaledShare factor) (s.assigned p multiple share).results
      (s.assigned p multiple' (share * factor)).results :=
    Series.at_modify ⟨rfl, rfl, rfl, rfl, rfl, rfl⟩
  have hscale : ∀ scale share : α,
      (s.assigned p scale share).results[p].fixedSupplyScale = scale := by
    intro scale share
    simp [assigned, update]
  rw [produce_eq, produce_eq, hscale, hscale]
  refine ⟨rfl, rfl, rfl, ?_, rfl, rfl, hresults⟩
  refine List.forall₂_map_left_iff.2 (List.forall₂_map_right_iff.2 (List.forall₂_same.2 ?_))
  intro t ht
  rw [hsupply t ht]
  exact t.scaled_setOutput _

end Fixed

end Subsector

end NestedLogit
