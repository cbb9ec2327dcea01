import NestedLogit.Proofs.Sector.Course
import NestedLogit.Report

/-!
# The calibration target that is reported

A subsector whose output calibration data determine aims at what the data ask for and its fixed
supply. When it produces, its fixed supply is scaled to what the data leave of the output, and the
report adds up the two again. The report therefore shows the target that was used only if there is
no fixed supply, or if the target was met; otherwise it shows the output itself, or what the data
ask for if that is more.

## Main definitions

- `Subsector.fittedSupply` — fixed supply after an output was produced
- `Sector.ReportedFrom` — the row about a subsector, from the one that contended

## Main statements

- `Subsector.fixedSupply_setOutput` — what calibration leaves to fixed supply
- `Sector.calibrationReports_calculate` — the rows after a calculation with calibration
-/

namespace NestedLogit

variable {n : Nat} {α : Type} {p : Fin n} [ExactQuantity α]

namespace Subsector

variable {s : Subsector n α} {output : α} {calibrate : Bool}

/-- The fixed supply of a subsector that has produced an output in a calibration: what calibration
data leave of the output. A supply that is not positive is not scaled. -/
def fittedSupply (s : Subsector n α) (p : Fin n) (output : α) : α :=
  if s.fixedSupply p ≤ 0 then s.fixedSupply p
  else min output (max (output - s.calibrationOutput p) 0)

/-- Serving an output does not change fixed supply. -/
theorem fixedSupply_serve (h : (s.serve p output calibrate).failure = none) :
    (s.serve p output calibrate).state.fixedSupply p = s.fixedSupply p := by
  obtain ⟨_, _, _, _, _, hresults⟩ := results_serve h
  exact (s.framed_serve output calibrate).fixedSupply (by rw [hresults])

theorem fixedSupply_setOutput (hcalibratable : s.isCalibratable p = true)
    (h : (s.setOutput p output true).failure = none) :
    (s.setOutput p output true).state.fixedSupply p = s.fittedSupply p output := by
  have hnonneg := nonneg_of_setOutput h
  have hvariable : s.variableTechnologies p ≠ [] := by
    intro hnone
    simp [isCalibratable, hnone] at hcalibratable
  have hfit := fixedSupply_fitFixedSupply hcalibratable output
  rw [setOutput_eq s hnonneg] at h ⊢
  rw [fittedSupply]
  dsimp only at h ⊢
  generalize s.fitFixedSupply p output true = fit at *
  split at h
  · next hscale =>
    have hlt : output < fit.fixedSupply p := hscale.resolve_right fun hnone => hvariable hnone.1
    rw [if_pos hscale, fixedSupply_serve h, fixedSupply_scaleFixedSupply,
      mul_div_cancel₀ _ (hnonneg.trans_lt hlt).ne']
    rw [hfit] at hlt
    split at hlt
    · next hnothing => exact absurd (hnothing.trans hnonneg) (not_le.2 hlt)
    · next hsome => rw [if_neg hsome, min_eq_left hlt.le]
  · next hscale =>
    have hle : fit.fixedSupply p ≤ output := not_lt.1 fun hlt => hscale (.inl hlt)
    rw [if_pos (.inl hvariable)] at h
    rw [if_neg hscale, if_pos (.inl hvariable), fixedSupply_serve h]
    rw [hfit] at hle ⊢
    split
    · rfl
    · next hsome =>
      rw [if_neg hsome] at hle
      rw [min_eq_right hle]

theorem calibrationOutput_nonneg
    (h : ∀ t ∈ s.technologies, ∀ x, t.parameters[p].calibrationOutput = some x → 0 ≤ x) :
    0 ≤ s.calibrationOutput p := by
  rw [calibrationOutput, Quantity.total_eq_sum]
  refine List.sum_nonneg fun x hx => ?_
  obtain ⟨t, ht, hx⟩ := List.mem_filterMap.1 hx
  exact h t (List.mem_of_mem_filter ht) x hx

/-- Together with what calibration data ask for, fixed supply that was fitted to an output makes up
the target again only if there is none, or if the output is the target. -/
theorem fittedSupply_eq_iff (hcalibration : 0 ≤ s.calibrationOutput p) (houtput : 0 ≤ output) :
    s.fittedSupply p output = s.fixedSupply p ↔
      s.fixedSupply p ≤ 0 ∨ output = s.calibrationOutput p + s.fixedSupply p := by
  unfold fittedSupply
  split
  · next hnothing => exact iff_of_true rfl (.inl hnothing)
  · next hsome =>
    rw [or_iff_right hsome]
    have hpos := not_le.1 hsome
    rcases le_or_gt (s.calibrationOutput p) output with hle | hlt
    · rw [max_eq_left (sub_nonneg.2 hle), min_eq_right (sub_le_self _ hcalibration),
        sub_eq_iff_eq_add']
    · rw [max_eq_right (sub_nonpos.2 hlt.le), min_eq_right houtput]
      exact iff_of_false hpos.ne (hlt.trans (lt_add_of_pos_right _ hpos)).ne

end Subsector

namespace Sector

/-- What the row about a subsector says, from the subsector as it contended for a demand. There is
none without a target. Otherwise it shows what calibration data ask for and the fixed supply that
was fitted to the output, which is the target that was used only if there is no fixed supply or if
the output is that target. -/
inductive ReportedFrom (p : Fin n) (demand : α) (y z : Subsector n α) :
    Option (CalibrationReport α) → Prop
  | untargeted (unused : targetShare p demand true y = none) : ReportedFrom p demand y z none
  | targeted {used : α} {row : CalibrationReport α} (target : y.calibrationTarget p = some used)
      (share : targetShare p demand true y = some (Quantity.smaller (used / demand) 1))
      (reported : row.target = y.calibrationOutput p + y.fittedSupply p row.output)
      (output : row.output = z.results[p].output)
      (faithful : row.target = used ↔ y.fixedSupply p ≤ 0 ∨ row.output = used) :
      ReportedFrom p demand y z (some row)

variable {s : Sector n α} {demand : α} {prices : GoodTable α}

/-- A subsector that was awarded something contended with the same fixed supply. -/
theorem fixedSupply_award (y : Subsector n α) (d : Award α) (c : Contender α)
    (target : Option α) : (award p y d c target).fixedSupply p = y.fixedSupply p := by
  rw [award_eq_update]
  exact (y.framed_update _).fixedSupply (by simp [Subsector.update])

/-- The row about a subsector that has produced what it was awarded. -/
theorem reportedFrom_award {y : Subsector n α} {d : Award α} {c : Contender α} {target : Option α}
    (hdemand : 0 < demand) (hcalibration : 0 ≤ y.calibrationOutput p)
    (h : (serveShare p demand true (award p y d c target)).failure = none) (year : Nat)
    (accuracy : α) :
    let z := (serveShare p demand true (award p y d c target)).state
    ReportedFrom p demand y z (z.calibrationReport? year p accuracy) := by
  intro z
  have houtput := Subsector.nonneg_of_setOutput h
  have hproduced : z.results[p].output = _ := Subsector.output_setOutput h
  have hframed : y.Framed p z := by
    refine Subsector.Framed.trans ?_ (Subsector.framed_setOutput _ _ true)
    rw [award_eq_update]
    exact y.framed_update _
  rw [Subsector.calibrationReport?, Subsector.calibrationTarget, ← hframed.isCalibratable]
  cases hcalibratable : y.isCalibratable p with
  | false =>
    refine .untargeted ?_
    rw [← Option.not_isSome_iff_eq_none, isSome_targetShare, hcalibratable, Bool.and_false]
    exact Bool.false_ne_true
  | true =>
    have htarget : y.calibrationTarget p = some (y.calibrationOutput p + y.fixedSupply p) :=
      if_pos hcalibratable
    have hfitted : z.fixedSupply p = y.fittedSupply p z.results[p].output := by
      rw [hproduced, Subsector.fittedSupply, ← fixedSupply_award y d c target]
      exact Subsector.fixedSupply_setOutput hcalibratable h
    rw [if_pos rfl, Option.map_some]
    refine .targeted htarget ?_ ?_ rfl ?_
    · rw [targetShare, htarget, if_pos (by simpa using hdemand), Option.map_some]
    · rw [hfitted, ← hframed.calibrationOutput]
    · rw [hfitted, ← hframed.calibrationOutput, add_right_inj]
      exact Subsector.fittedSupply_eq_iff hcalibration (hproduced ▸ houtput)

/-- After a calculation with calibration, the report compares the output of a subsector with what
calibration data ask for and the fixed supply that they leave of that output. This is the target
that its share was calculated from exactly if it has no fixed supply or has met the target. -/
theorem calibrationReports_calculate (hdemand : 0 < demand)
    (hdata : ∀ t ∈ s.technologies, ∀ x, t.parameters[p].calibrationOutput = some x → 0 ≤ x)
    (h : (s.calculate p demand prices true).failure = none) (year : Nat) (accuracy : α) :
    List.Forall₂ (fun y z => ReportedFrom p demand y z (z.calibrationReport? year p accuracy))
      (s.contending p demand prices true).subsectors
      (s.calculate p demand prices true).state.subsectors := by
  have hcalibration : ∀ y ∈ (s.contending p demand prices true).subsectors,
      0 ≤ y.calibrationOutput p := by
    refine forall_mem_of_forall₂ (s.framed_contending demand prices true).subsectors ?_
    intro x hx y hxy
    rw [← hxy.calibrationOutput]
    exact Subsector.calibrationOutput_nonneg fun t ht => hdata t (List.mem_flatMap.2 ⟨x, hx, ht⟩)
  refine ((List.forall₂_and_left _ _).2 ⟨hcalibration, forall₂_subsectors_calculate h⟩).imp ?_
  rintro y z ⟨hy, d, c, target, hok, rfl⟩
  exact reportedFrom_award hdemand hy hok year accuracy

/-- A sector with a dam that supplies two and wind that is calibrated to six. -/
def reservoirSector : Sector 1 ℚ :=
  let technology (name : String) (fixed calibrated : Option ℚ) : Technology 1 ℚ :=
    { Technology.new 1 ⟨name⟩ none with
      parameters := Series.const 1
        { TechnologyParameters.default with
          nonEnergyCost := 1
          fixedOutput := fixed
          calibrationOutput := calibrated } }
  let mixed : Subsector 1 ℚ :=
    { (Subsector.new 1 ⟨⟨"island"⟩, ⟨"power"⟩, ⟨"mixed"⟩⟩ : Subsector 1 ℚ) with
      technologies := [technology "dam" (some 2) none, technology "wind" none (some 6)] }
  { (Sector.new 1 ⟨⟨"island"⟩, ⟨"power"⟩⟩ : Sector 1 ℚ) with subsectors := [mixed] }

theorem reservoirSector_reported :
    (0 < (7 : ℚ) ∧
        (∀ t ∈ reservoirSector.technologies, ∀ x,
          t.parameters[(0 : Fin 1)].calibrationOutput = some x → 0 ≤ x) ∧
        (reservoirSector.calculate 0 7 .empty true).failure = none) ∧
      List.Forall₂
        (fun y z => ReportedFrom 0 7 y z (z.calibrationReport? 2005 (0 : Fin 1) (1 / 1000)))
        (reservoirSector.contending 0 7 .empty true).subsectors
        (reservoirSector.calculate 0 7 .empty true).state.subsectors := by
  have hdemand : 0 < (7 : ℚ) := by norm_num
  have hdata : ∀ t ∈ reservoirSector.technologies, ∀ x,
      t.parameters[(0 : Fin 1)].calibrationOutput = some x → 0 ≤ x := by
    simp [reservoirSector, Sector.technologies]
  have h : (reservoirSector.calculate 0 7 .empty true).failure = none :=
    Option.isNone_iff_eq_none.1 (by decide +kernel)
  exact ⟨⟨hdemand, hdata, h⟩, calibrationReports_calculate hdemand hdata h 2005 (1 / 1000)⟩

/-- The subsector aims at eight, produces seven, and is reported to have met a target of seven. -/
theorem reservoirSector_misreported :
    (reservoirSector.calculate 0 7 .empty true).failure = none ∧
      ((reservoirSector.contending 0 7 .empty true).subsectors.map fun y => y.calibrationTarget 0)
        = [some 8] ∧
      ((reservoirSector.calculate 0 7 .empty true).state.subsectors.map fun z =>
          (z.calibrationReport? 2005 (0 : Fin 1) (1 / 1000)).map fun row =>
            (row.target, row.output, row.calibrated))
        = [some (7, 7, true)] := by
  have h : (reservoirSector.calculate 0 7 .empty true).failure = none :=
    Option.isNone_iff_eq_none.1 (by decide +kernel)
  exact ⟨h, by decide +kernel, by decide +kernel⟩

end Sector

end NestedLogit
