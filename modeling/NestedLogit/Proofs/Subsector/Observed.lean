import NestedLogit.Proofs.Choice.CompleteTargets
import NestedLogit.Proofs.Subsector.Output

/-!
# Subsectors that calibration data determine

If there are calibration data for every technology whose output is not fixed, a calibration leaves
fixed supply what the data leave of the output. The variable output is then what the data add up to,
so that the targets make up a market, and a recalibration reaches them.

## Main definitions

- `Subsector.Observed` — calibration data for all who could be chosen

## Main statements

- `Subsector.Observed.setOutput_eq` — an output is served with fixed supply fitted to the data
- `Subsector.Observed.complete` — the data are targets for everybody
- `Subsector.setOutput_observed` — what everybody produces
- `Subsector.islandSubsector_misses` — data that are missed because some of them are negative
-/

namespace NestedLogit

variable {n : Nat} {α : Type} {p : Fin n} [ExactQuantity α]

namespace Subsector

/-- A subsector with calibration data for every technology whose output is not fixed. There are some
of these, but no more than a million, every one of them can be chosen at a positive cost, and the
data add up to something. -/
structure Observed (p : Fin n) (s : Subsector n α) : Prop where
  variable_ne_nil : s.variableTechnologies p ≠ []
  few : (s.variableTechnologies p).length ≤ 1000000
  calibrated : ∀ t ∈ s.variableTechnologies p, t.isCalibrated p = true
  cost_pos : ∀ t ∈ s.variableTechnologies p, 0 < t.results[p].cost
  weight_pos : ∀ t ∈ s.variableTechnologies p, 0 < t.baseShareWeight[p]
  output_pos : 0 < s.calibrationOutput p

/-- Calibration data none of which are negative. -/
def DataNonneg (p : Fin n) (s : Subsector n α) : Prop :=
  ∀ t ∈ s.variableTechnologies p, ∀ x, t.parameters[p].calibrationOutput = some x → 0 ≤ x

instance (p : Fin n) (s : Subsector n α) : Decidable (s.Observed p) :=
  decidable_of_iff
    ((s.variableTechnologies p).isEmpty = false ∧ (s.variableTechnologies p).length ≤ 1000000 ∧
      (∀ t ∈ s.variableTechnologies p, t.isCalibrated p = true) ∧
      (∀ t ∈ s.variableTechnologies p, 0 < t.results[p].cost) ∧
      (∀ t ∈ s.variableTechnologies p, 0 < t.baseShareWeight[p]) ∧ 0 < s.calibrationOutput p)
    ⟨fun ⟨hne, hfew, hcalibrated, hcost, hweight, houtput⟩ =>
      ⟨List.isEmpty_eq_false_iff.1 hne, hfew, hcalibrated, hcost, hweight, houtput⟩,
    fun h => ⟨List.isEmpty_eq_false_iff.2 h.variable_ne_nil, h.few, h.calibrated, h.cost_pos,
      h.weight_pos, h.output_pos⟩⟩

instance (p : Fin n) (s : Subsector n α) : Decidable (s.DataNonneg p) :=
  inferInstanceAs
    (Decidable (∀ t ∈ s.variableTechnologies p, ∀ x ∈ t.parameters[p].calibrationOutput, 0 ≤ x))

variable {s : Subsector n α} {output : α}

theorem calibrationOutput_eq_sum (s : Subsector n α) :
    s.calibrationOutput p
      = ((s.variableTechnologies p).map fun t => t.parameters[p].calibrationOutput.getD 0).sum := by
  rw [calibrationOutput, Quantity.total_eq_sum, sum_filterMap]

theorem calibrationOutput_fitFixedSupply (calibrate : Bool) :
    (s.fitFixedSupply p output calibrate).calibrationOutput p = s.calibrationOutput p := by
  rw [calibrationOutput, calibrationOutput, variableTechnologies, technologies_fitFixedSupply]
  rfl

/-- The datum of a technology is a part of what the data add up to. -/
theorem DataNonneg.le_calibrationOutput (h : s.DataNonneg p) {t : Technology n α}
    (ht : t ∈ s.variableTechnologies p) {x : α} (hx : t.parameters[p].calibrationOutput = some x) :
    x ≤ s.calibrationOutput p := by
  have hnonneg : ∀ y ∈ (s.variableTechnologies p).map fun t =>
      t.parameters[p].calibrationOutput.getD 0, 0 ≤ y := by
    refine List.forall_mem_map.2 fun t ht => ?_
    cases hy : t.parameters[p].calibrationOutput with
    | none => exact le_rfl
    | some y => exact h t ht y hy
  rw [calibrationOutput_eq_sum]
  have hle := List.single_le_sum hnonneg _ (List.mem_map_of_mem ht)
  rwa [hx, Option.getD_some] at hle

namespace Observed

theorem isCalibratable (h : s.Observed p) : s.isCalibratable p = true := by
  rw [Subsector.isCalibratable, Bool.and_eq_true, List.all_eq_true]
  exact ⟨by simpa using h.variable_ne_nil, h.calibrated⟩

/-- Fixed supply is fitted to what the data leave of an output, if the output has room for the data
and is filled by them where there is no fixed supply. -/
theorem fixedSupply_fit (h : s.Observed p) (hfixed : 0 ≤ s.fixedSupply p)
    (hroom : s.calibrationOutput p ≤ output)
    (hfull : s.fixedSupply p = 0 → output = s.calibrationOutput p) :
    (s.fitFixedSupply p output true).fixedSupply p = output - s.calibrationOutput p := by
  rw [fixedSupply_fitFixedSupply h.isCalibratable]
  split
  · next hnone =>
    have hzero := le_antisymm hnone hfixed
    rw [hzero, hfull hzero, sub_self]
  · exact max_eq_left (sub_nonneg.2 hroom)

/-- Such an output is served once fixed supply is fitted. -/
theorem setOutput_eq (h : s.Observed p)
    (hfit : (s.fitFixedSupply p output true).fixedSupply p = output - s.calibrationOutput p)
    (houtput : 0 ≤ output) :
    s.setOutput p output true = (s.fitFixedSupply p output true).serve p output true := by
  have hscale : ¬(output < (s.fitFixedSupply p output true).fixedSupply p ∨
      s.variableTechnologies p = [] ∧ 0 < (s.fitFixedSupply p output true).fixedSupply p) := by
    rintro (hlt | ⟨hnone, -⟩)
    · rw [hfit] at hlt
      exact absurd h.output_pos (not_lt.2 (by linarith))
    · exact h.variable_ne_nil hnone
  rw [Subsector.setOutput_eq s houtput]
  dsimp only
  rw [if_neg hscale, if_pos (.inl h.variable_ne_nil)]

/-- Only the technologies matter. -/
theorem of_technologies (h : s.Observed p) {x : Subsector n α}
    (hx : x.technologies = s.technologies) : x.Observed p := by
  have hvariable : x.variableTechnologies p = s.variableTechnologies p :=
    congrArg (List.filter _) hx
  have houtput : x.calibrationOutput p = s.calibrationOutput p := by
    rw [calibrationOutput, calibrationOutput, hvariable]
  exact ⟨hvariable ▸ h.variable_ne_nil, hvariable ▸ h.few, hvariable ▸ h.calibrated,
    hvariable ▸ h.cost_pos, hvariable ▸ h.weight_pos, houtput ▸ h.output_pos⟩

theorem ordinary (h : s.Observed p) {t : Technology n α} (ht : t ∈ s.variableTechnologies p)
    (hfinite : Quantity.isFinite t.results[p].cost = true) : (t.contender p).Ordinary :=
  ⟨⟨rfl, rfl⟩, h.cost_pos t ht, hfinite, (h.weight_pos t ht).le⟩

/-- A technology aims at its part of what the data add up to. -/
theorem target_eq (h : s.Observed p) (hnonneg : s.DataNonneg p) {t : Technology n α}
    (ht : t ∈ s.variableTechnologies p) {x : α} (hx : t.parameters[p].calibrationOutput = some x) :
    Quantity.smaller (x / s.calibrationOutput p) 1 = x / s.calibrationOutput p := by
  rw [Quantity.smaller_eq_min, min_eq_left]
  exact (div_le_one h.output_pos).2 (hnonneg.le_calibrationOutput ht hx)

/-- If there is nothing else to produce, the data are targets for everybody. -/
theorem complete (h : s.Observed p) (hnonneg : s.DataNonneg p)
    (hfinite : ∀ a : α, Quantity.isFinite a = true) :
    Complete (s.technologyAims p (s.calibrationOutput p)) where
  aimed := List.forall_mem_map.2 fun t ht => by
    obtain ⟨x, hx⟩ := Option.isSome_iff_exists.1 (h.calibrated t ht)
    have hgoal := h.target_eq hnonneg ht hx
    refine ⟨h.ordinary ht (hfinite _), ?_, ?_⟩ <;>
      simp only [Aim.goal, hx, Option.map_some, Option.getD_some]
    rw [hgoal]
    exact div_nonneg (hnonneg t ht x hx) h.output_pos.le
  sum_goal := by
    have hgoals : (s.technologyAims p (s.calibrationOutput p)).map Aim.goal
        = (s.variableTechnologies p).map fun t =>
          t.parameters[p].calibrationOutput.getD 0 / s.calibrationOutput p := by
      rw [technologyAims, List.map_map]
      refine List.map_congr_left fun t ht => ?_
      obtain ⟨x, hx⟩ := Option.isSome_iff_exists.1 (h.calibrated t ht)
      simpa [Aim.goal, hx] using h.target_eq hnonneg ht hx
    simp only [hgoals, div_eq_mul_inv]
    rw [List.sum_map_mul_right, ← calibrationOutput_eq_sum, mul_inv_cancel₀ h.output_pos.ne']
  few := by
    rw [technologyAims, List.length_map]
    exact length_mul_tolerance_lt_one h.few

theorem aimedPull_pos (h : s.Observed p) (hfinite : ∀ a : α, Quantity.isFinite a = true) :
    0 < aimedPull (s.technologyAims p (s.calibrationOutput p)) := by
  obtain ⟨t, ht⟩ := List.exists_mem_of_ne_nil _ h.variable_ne_nil
  rw [← totalPull_map_contender, totalPull_pos_iff]
  · exact ⟨t.contender p, List.mem_map_of_mem (List.mem_map_of_mem ht), h.weight_pos t ht⟩
  · exact List.forall_mem_map.2 (List.forall_mem_map.2 fun t ht => h.ordinary ht (hfinite _))

/-- A recalibration brings the shares near the parts that the data are of what they add up to. -/
theorem near_recalibrateTechnologies (h : s.Observed p) (hnonneg : s.DataNonneg p)
    (hfinite : ∀ a : α, Quantity.isFinite a = true)
    (hok : (s.recalibrateTechnologies p (s.calibrationOutput p)).failure = none) :
    ∀ t ∈ (s.recalibrateTechnologies p (s.calibrationOutput p)).state.variableTechnologies p,
      ∀ x, t.parameters[p].calibrationOutput = some x →
        |t.results[p].share - x / s.calibrationOutput p|
          ≤ ((s.variableTechnologies p).length + 1) * recalibrationTolerance := by
  obtain ⟨b, hb, hnear⟩ := recalibrate_near hfinite (h.complete hnonneg hfinite)
    (h.aimedPull_pos hfinite)
  rcases recalibrateTechnologies_eq_ok hok with ⟨hnothing, -⟩ | ⟨-, c, hc, hlength, hstate⟩
  · exfalso
    rcases hnothing with hnothing | hnobody
    · exact absurd h.output_pos (not_lt.2 hnothing)
    · obtain ⟨t, ht⟩ := List.exists_mem_of_ne_nil _ h.variable_ne_nil
      exact absurd (h.calibrated t ht) (by simp [hnobody t ht])
  · obtain rfl := Except.ok.inj (hb.symm.trans hc)
    have hshares : b.shares.length
        = (recalibrate (s.technologyAims p (s.calibrationOutput p))).contenders.length := by
      rw [allocate_length_shares (recalibrate_allocates hb).1]
    have hvariable := filter_overVariable (f := Technology.takeUp p)
      (Technology.isFixed_takeUp p) hlength
    rw [Near, reach, technologyAims, List.length_map, List.forall₂_map_left_iff,
      ← List.map_snd_zip hshares.le, List.forall₂_map_right_iff] at hnear
    have hmember := (List.forall₂_and_left _ _).2 ⟨fun t ht => ht, hnear⟩
    rw [hstate]
    change ∀ t ∈ (overVariable p _ _ _).filter _, _
    rw [hvariable]
    refine forall_mem_zipWith_of_forall₂ hmember ?_
    rintro t y ⟨ht, hy⟩ x hx
    have hx : t.parameters[p].calibrationOutput = some x := by
      rwa [Technology.parameters_takeUp] at hx
    rw [Technology.share_takeUp]
    rwa [Aim.goal, hx, Option.map_some, Option.getD_some, h.target_eq hnonneg ht hx] at hy

end Observed

section Outputs

/-- What everybody supplies who produces after a recalibration. -/
theorem forall₂_serve {variableOutput : α}
    (hvariable : Quantity.larger (output - s.fixedSupply p) 0 = variableOutput)
    (hok : (s.recalibrateTechnologies p variableOutput).failure = none) :
    List.Forall₂ (fun t t' => t.parameters = t'.parameters ∧
        t.supply p s.results[p].fixedSupplyScale variableOutput = t'.results[p].output)
      (s.recalibrateTechnologies p variableOutput).state.technologies
      (s.serve p output true).state.technologies := by
  have hstock := ((s.recalibrateTechnologies p variableOutput).state.produce p
    variableOutput).forall₂_takeStock (p := p) output
  have hproduced : ((s.recalibrateTechnologies p variableOutput).state.produce p
        variableOutput).technologies
      = (s.recalibrateTechnologies p variableOutput).state.technologies.map fun t =>
        t.setOutput p (t.supply p s.results[p].fixedSupplyScale variableOutput) := by
    rw [produce_eq, results_recalibrateTechnologies]
    rfl
  rw [hproduced, List.forall₂_map_left_iff] at hstock
  rw [serve, hvariable, if_pos rfl, Run.state_andThen hok]
  refine hstock.imp fun t t' ht => ⟨ht.1, ?_⟩
  rw [← ht.2]
  simp [Technology.setOutput, Technology.update]

/-- Fixed technologies at a multiple of their fixed outputs produce that multiple together. -/
theorem sum_output_fixed {multiple : α}
    (h : ∀ t ∈ s.technologies, ∀ fixed, t.parameters[p].fixedOutput = some fixed →
      t.results[p].output = fixed * multiple) :
    ((s.technologies.filter (·.isFixed p)).map fun t => t.results[p].output).sum
      = (s.technologies.map fun t => t.parameters[p].fixedOutput.getD 0).sum * multiple := by
  have houtput : ∀ t ∈ s.technologies, (if t.isFixed p then t.results[p].output else 0)
      = t.parameters[p].fixedOutput.getD 0 * multiple := by
    intro t ht
    cases hfixed : t.parameters[p].fixedOutput with
    | none => simp [Technology.isFixed, hfixed]
    | some fixed => simp [Technology.isFixed, hfixed, h t ht fixed hfixed]
  rw [← List.sum_map_mul_right, ← List.map_congr_left houtput, List.sum_map_ite]
  simp

end Outputs

/-- What a calibration makes of an output that has room for the data. -/
theorem Observed.outputs_serve (h : s.Observed p) (hwhole : MakeWhole (s.variableShares p))
    (hfit : s.fixedSupply p = output - s.calibrationOutput p) :
    let served := s.serve p output true
    served.failure = none ∧
      (∀ t ∈ served.state.technologies, ∀ fixed, t.parameters[p].fixedOutput = some fixed →
        t.results[p].output = fixed * s.results[p].fixedSupplyScale) ∧
      (s.DataNonneg p → (∀ a : α, Quantity.isFinite a = true) →
        ∀ t ∈ served.state.variableTechnologies p, ∀ x, t.parameters[p].calibrationOutput = some x →
          |t.results[p].output - x|
            ≤ ((s.variableTechnologies p).length + 1) * recalibrationTolerance
              * s.calibrationOutput p) := by
  intro served
  have hpos := h.output_pos
  have hvariable : Quantity.larger (output - s.fixedSupply p) 0 = s.calibrationOutput p := by
    rw [Quantity.larger_eq_max, hfit, sub_sub_cancel, max_eq_left hpos.le]
  have hok := (recalibrateTechnologies_whole hwhole (s.calibrationOutput p)).1
  have houtputs := forall₂_serve hvariable hok
  refine ⟨?_, ?_, fun hnonneg hfinite => ?_⟩
  · exact Run.failure_andThen.2 ⟨by rw [hvariable]; exact hok, rfl⟩
  · refine forall_mem_of_forall₂ houtputs fun t _ t' ht fixed hfixed => ?_
    rw [← ht.1] at hfixed
    rw [← ht.2, Technology.supply, hfixed]
  · have hnear := h.near_recalibrateTechnologies hnonneg hfinite hok
    intro t' ht' x hx
    obtain ⟨hmem, hopen⟩ := List.mem_filter.1 ht'
    refine forall_mem_of_forall₂ houtputs (P := fun t' => t'.isFixed p = false → ∀ x,
      t'.parameters[p].calibrationOutput = some x → |t'.results[p].output - x| ≤ _) ?_ t' hmem
      (by simpa using hopen) x hx
    rintro t ht t' ⟨hparameters, houtput⟩ hopen x hx
    have hfixed : t.parameters[p].fixedOutput = none := by
      rw [hparameters]
      simpa [Technology.isFixed] using hopen
    have hclose := hnear t (List.mem_filter.2 ⟨ht, by simp [Technology.isFixed, hfixed]⟩) x
      (hparameters ▸ hx)
    rw [← houtput, Technology.supply, hfixed]
    calc |t.results[p].share * s.calibrationOutput p - x|
        = |t.results[p].share - x / s.calibrationOutput p| * s.calibrationOutput p := by
          rw [← abs_of_pos hpos, ← abs_mul, abs_of_pos hpos, sub_mul, div_mul_cancel₀ _ hpos.ne']
      _ ≤ _ := mul_le_mul_of_nonneg_right hclose hpos.le

/-- Fixed supply that is fitted to the data is what these leave of the output, also together. -/
theorem Observed.outputs_setOutput (h : s.Observed p) (hwhole : MakeWhole (s.variableShares p))
    (hfixed : 0 ≤ s.fixedSupply p) (hroom : s.calibrationOutput p ≤ output)
    (hfull : s.fixedSupply p = 0 → output = s.calibrationOutput p) :
    let served := s.setOutput p output true
    served.failure = none ∧
      (∃ multiple, ∀ t ∈ served.state.technologies, ∀ fixed,
        t.parameters[p].fixedOutput = some fixed → t.results[p].output = fixed * multiple) ∧
      ((served.state.technologies.filter (·.isFixed p)).map fun t => t.results[p].output).sum
        = output - s.calibrationOutput p ∧
      (s.DataNonneg p → (∀ a : α, Quantity.isFinite a = true) →
        ∀ t ∈ served.state.variableTechnologies p, ∀ x, t.parameters[p].calibrationOutput = some x →
          |t.results[p].output - x|
            ≤ ((s.variableTechnologies p).length + 1) * recalibrationTolerance
              * s.calibrationOutput p) := by
  intro served
  have hfit := h.fixedSupply_fit hfixed hroom hfull
  have hserved : served = (s.fitFixedSupply p output true).serve p output true :=
    h.setOutput_eq hfit (h.output_pos.le.trans hroom)
  have hfitted : (s.fitFixedSupply p output true).Observed p :=
    h.of_technologies (s.technologies_fitFixedSupply output true)
  have hdata : (s.fitFixedSupply p output true).calibrationOutput p = s.calibrationOutput p :=
    calibrationOutput_fitFixedSupply true
  have hvariable : (s.fitFixedSupply p output true).variableTechnologies p
      = s.variableTechnologies p :=
    congrArg (List.filter _) (s.technologies_fitFixedSupply output true)
  have hwhole' : MakeWhole ((s.fitFixedSupply p output true).variableShares p) := by
    rwa [variableShares, hvariable]
  obtain ⟨hok, hmultiple, hnear⟩ := hfitted.outputs_serve hwhole' (hdata.symm ▸ hfit)
  have hframed := (s.fitFixedSupply p output true).framed_serve (p := p) output true
  rw [hserved]
  refine ⟨hok, ⟨_, hmultiple⟩, ?_, ?_⟩
  · rw [sum_output_fixed hmultiple, ← hfit, fixedSupply_eq_sum,
      map_eq_of_forall₂ hframed.technologies fun ht => by rw [ht.parameters]]
  · intro hnonneg hfinite
    have hclose := hnear (by rwa [DataNonneg, hvariable]) hfinite
    rwa [hvariable, hdata] at hclose

section Preparation

variable {prices : GoodTable α}

theorem whole_prepare (h : (s.prepare p prices).failure = none) :
    MakeWhole ((s.prepare p prices).state.variableShares p) := by
  obtain ⟨hcosts, -⟩ := Run.failure_andThen.1 h
  rw [prepare, Run.state_andThen hcosts]
  exact (shareTechnologies_whole _).2

/-- Let calibration data determine a subsector after its costs and shares were calculated, and let
an output have room for the data, and be what they add up to if there is no fixed supply. In a
calibration the output is not refused, the fixed technologies supply together what the data leave
of it, at one multiple of their fixed outputs, and if no datum is negative, every other technology
produces its datum, up to the tolerance of the sum of the data, twice for each technology and twice
more. -/
theorem setOutput_observed (hfinite : ∀ a : α, Quantity.isFinite a = true)
    (h : (s.prepare p prices).failure = none) (hobserved : (s.prepare p prices).state.Observed p)
    (hfixed : 0 ≤ (s.prepare p prices).state.fixedSupply p)
    (hroom : (s.prepare p prices).state.calibrationOutput p ≤ output)
    (hfull : (s.prepare p prices).state.fixedSupply p = 0 →
      output = (s.prepare p prices).state.calibrationOutput p) :
    let ready := (s.prepare p prices).state
    let served := ready.setOutput p output true
    served.failure = none ∧ s.Framed p served.state ∧
      (∃ multiple, ∀ t ∈ served.state.technologies, ∀ fixed,
        t.parameters[p].fixedOutput = some fixed → t.results[p].output = fixed * multiple) ∧
      ((served.state.technologies.filter (·.isFixed p)).map fun t => t.results[p].output).sum
        = output - ready.calibrationOutput p ∧
      (ready.DataNonneg p → ∀ t ∈ served.state.variableTechnologies p, ∀ x,
        t.parameters[p].calibrationOutput = some x →
          |t.results[p].output - x|
            ≤ 2 * ((ready.variableTechnologies p).length + 1) * recalibrationTolerance
              * ready.calibrationOutput p) := by
  intro ready served
  have hframed : s.Framed p served.state :=
    (s.framed_prepare prices).trans (ready.framed_setOutput output true)
  obtain ⟨hok, hmultiple, hsum, hnear⟩ :=
    hobserved.outputs_setOutput (whole_prepare h) hfixed hroom hfull
  refine ⟨hok, hframed, hmultiple, hsum, fun hnonneg t ht x hx => ?_⟩
  refine (hnear hnonneg hfinite t ht x hx).trans ?_
  refine mul_le_mul_of_nonneg_right ?_ hobserved.output_pos.le
  have htol : (0 : α) < recalibrationTolerance := recalibrationTolerance_pos
  have hcount : (0 : α) ≤ (ready.variableTechnologies p).length := Nat.cast_nonneg _
  nlinarith

end Preparation

/-- A subsector with a fixed technology and two that have calibration data. -/
def islandSubsector (fixed wind solar : ℚ) : Subsector 1 ℚ :=
  let technology (name : String) (fixed calibrated : Option ℚ) : Technology 1 ℚ :=
    { Technology.new 1 ⟨name⟩ none with
      parameters := Series.const 1
        { TechnologyParameters.default with
          nonEnergyCost := 1
          fixedOutput := fixed
          calibrationOutput := calibrated } }
  { (Subsector.new 1 ⟨⟨"region"⟩, ⟨"power"⟩, ⟨"island"⟩⟩ : Subsector 1 ℚ) with
    technologies :=
      [technology "hydro" (some fixed) none, technology "wind" none (some wind),
        technology "solar" none (some solar)] }

/-- Fixed supply of four is scaled to the two that data of five and one leave of an output of
eight, and the data are reached. -/
theorem islandSubsector_observed :
    (((islandSubsector 4 5 1).prepare 0 .empty).failure = none ∧
        ((islandSubsector 4 5 1).prepare 0 .empty).state.Observed 0 ∧
        0 ≤ ((islandSubsector 4 5 1).prepare 0 .empty).state.fixedSupply 0 ∧
        ((islandSubsector 4 5 1).prepare 0 .empty).state.calibrationOutput 0 ≤ 8 ∧
        (((islandSubsector 4 5 1).prepare 0 .empty).state.fixedSupply 0 = 0 →
          8 = ((islandSubsector 4 5 1).prepare 0 .empty).state.calibrationOutput 0) ∧
        ((islandSubsector 4 5 1).prepare 0 .empty).state.DataNonneg 0) ∧
      let ready := ((islandSubsector 4 5 1).prepare 0 .empty).state
      let served := ready.setOutput 0 8 true
      served.failure = none ∧
        ((served.state.technologies.filter (·.isFixed 0)).map
          fun t => t.results[(0 : Fin 1)].output).sum = 8 - ready.calibrationOutput 0 ∧
        ∀ t ∈ served.state.variableTechnologies 0, ∀ x,
          t.parameters[(0 : Fin 1)].calibrationOutput = some x →
            |t.results[(0 : Fin 1)].output - x|
              ≤ 2 * ((ready.variableTechnologies 0).length + 1) * recalibrationTolerance
                * ready.calibrationOutput 0 := by
  have h : ((islandSubsector 4 5 1).prepare 0 .empty).failure = none := by decide +kernel
  have hobserved : ((islandSubsector 4 5 1).prepare 0 .empty).state.Observed 0 := by
    decide +kernel
  have hfixed : 0 ≤ ((islandSubsector 4 5 1).prepare 0 .empty).state.fixedSupply 0 := by
    decide +kernel
  have hroom : ((islandSubsector 4 5 1).prepare 0 .empty).state.calibrationOutput 0 ≤ 8 := by
    decide +kernel
  have hfull : ((islandSubsector 4 5 1).prepare 0 .empty).state.fixedSupply 0 = 0 →
      8 = ((islandSubsector 4 5 1).prepare 0 .empty).state.calibrationOutput 0 := by
    decide +kernel
  have hnonneg : ((islandSubsector 4 5 1).prepare 0 .empty).state.DataNonneg 0 := by
    decide +kernel
  obtain ⟨hok, -, -, hsum, hnear⟩ :=
    setOutput_observed (fun _ => rfl) h hobserved hfixed hroom hfull
  exact ⟨⟨h, hobserved, hfixed, hroom, hfull, hnonneg⟩, hok, hsum, hnear hnonneg⟩

/-- If data of minus one and two are given, the technology with the negative datum produces nothing
and the other one all that the data add up to, so that both data are missed. -/
theorem islandSubsector_misses :
    ((islandSubsector 4 (-1) 2).prepare 0 .empty).failure = none ∧
      ((islandSubsector 4 (-1) 2).prepare 0 .empty).state.Observed 0 ∧
      0 < ((islandSubsector 4 (-1) 2).prepare 0 .empty).state.fixedSupply 0 ∧
      ((islandSubsector 4 (-1) 2).prepare 0 .empty).state.calibrationOutput 0 ≤ 3 ∧
      let ready := ((islandSubsector 4 (-1) 2).prepare 0 .empty).state
      let served := ready.setOutput 0 3 true
      served.state.technologies.map (fun t => t.results[(0 : Fin 1)].output) = [2, 0, 1] ∧
        ¬∀ t ∈ served.state.variableTechnologies 0, ∀ x,
          t.parameters[(0 : Fin 1)].calibrationOutput = some x →
            |t.results[(0 : Fin 1)].output - x|
              ≤ 2 * ((ready.variableTechnologies 0).length + 1) * recalibrationTolerance
                * ready.calibrationOutput 0 := by
  refine ⟨by decide +kernel, by decide +kernel, by decide +kernel, by decide +kernel, by decide +kernel, ?_⟩
  change ¬∀ t : Technology 1 ℚ, t ∈ _ → ∀ x ∈ t.parameters[(0 : Fin 1)].calibrationOutput, _
  decide +kernel

end Subsector

end NestedLogit
