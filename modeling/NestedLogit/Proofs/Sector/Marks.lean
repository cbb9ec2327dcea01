import NestedLogit.Proofs.Sector.Supply

/-!
# What a calculation marks as recalibrated

Subsectors and technologies are marked when their share weights are recalibrated, and the marks
decide later which share weights are carried forward. Every calculation of a sector that comes to
its end sets all marks of its period anew. Afterwards exactly those are marked that the calculation
had a target for.

## Main definitions

- `Subsector.Marks` — which technologies are marked
- `Sector.Marks` — which subsectors and technologies are marked

## Main statements

- `Subsector.marks_shareTechnologies` — the marks of technologies are taken away
- `Subsector.Marks.setOutput` — those of recalibrated technologies are set
- `Sector.marks_calculate` — the marks after a calculation
-/

namespace NestedLogit

variable {n : Nat} {α : Type} {p : Fin n}

/-- What becomes of technologies to whom values are handed out, one for each that is not fixed. -/
theorem forall_mem_overVariable {β : Type} {Q : Technology n α → Prop}
    {f : Technology n α → β → Technology n α} {ts : List (Technology n α)} {bs : List β}
    (hlen : bs.length = (ts.filter fun t => !t.isFixed p).length)
    (hfixed : ∀ t ∈ ts, t.isFixed p = true → Q t)
    (hvariable : ∀ t ∈ ts, t.isFixed p = false → ∀ b ∈ bs, Q (f t b)) :
    ∀ t ∈ overVariable p f ts bs, Q t := by
  induction ts generalizing bs with
  | nil =>
    rw [List.length_eq_zero_iff.1 hlen]
    exact fun t ht => absurd ht List.not_mem_nil
  | cons t ts ih =>
    obtain ⟨hfixed₁, hfixed⟩ := List.forall_mem_cons.1 hfixed
    obtain ⟨hvariable₁, hvariable⟩ := List.forall_mem_cons.1 hvariable
    cases ht : t.isFixed p with
    | true =>
      rw [List.filter_cons_of_neg (by simp [ht])] at hlen
      have hrest := ih hlen hfixed hvariable
      cases bs with
      | nil =>
        -- Without data left the definition stops here, and the technologies left are fixed.
        have hall : ∀ t ∈ ts, t.isFixed p = true := by
          simpa [List.filter_eq_nil_iff] using List.length_eq_zero_iff.1 hlen.symm
        exact List.forall_mem_cons.2 ⟨hfixed₁ ht, fun t ht => hfixed t ht (hall t ht)⟩
      | cons b bs =>
        rw [overVariable, if_pos ht]
        exact List.forall_mem_cons.2 ⟨hfixed₁ ht, hrest⟩
    | false =>
      rw [List.filter_cons_of_pos (by simp [ht])] at hlen
      obtain ⟨b, bs, rfl⟩ := List.exists_cons_of_length_eq_add_one hlen
      rw [overVariable, if_neg (by simp [ht])]
      refine List.forall_mem_cons.2 ⟨hvariable₁ ht b (List.mem_cons_self ..), ?_⟩
      exact ih (Nat.succ.inj hlen) hfixed fun t ht hf b hb =>
        hvariable t ht hf b (List.mem_cons_of_mem _ hb)

namespace Subsector

/-- The technologies that are marked as recalibrated are those with calibration data whose output is
not fixed, if there are any marks at all. -/
def Marks (p : Fin n) (any : Bool) (s : Subsector n α) : Prop :=
  ∀ t ∈ s.technologies,
    t.results[p].recalibrated = (any && (!t.isFixed p && t.isCalibrated p))

variable {any : Bool} {s : Subsector n α}

/-- A change to technologies that has nothing to do with recalibration leaves the marks alone. -/
theorem Marks.mapTechnologies (h : s.Marks p any) {f : Technology n α → Technology n α}
    (hparameters : ∀ t, (f t).parameters = t.parameters)
    (hmark : ∀ t, (f t).results[p].recalibrated = t.results[p].recalibrated) :
    (s.mapTechnologies f).Marks p any := by
  refine List.forall_mem_map.2 fun t ht => ?_
  rw [hmark, Technology.isFixed, Technology.isCalibrated, hparameters]
  exact h t ht

variable [Quantity α]

theorem Marks.produce (h : s.Marks p any) (variableOutput : α) :
    (s.produce p variableOutput).Marks p any := by
  refine h.mapTechnologies (fun t => ?_) fun t => ?_
  · split <;> rfl
  · split <;> simp [Technology.setOutput, Technology.update]

theorem Marks.takeStock (h : s.Marks p any) (output : α) : (s.takeStock p output).Marks p any := by
  unfold Subsector.takeStock
  dsimp only
  split
  · refine Marks.mapTechnologies ?_ (fun t => rfl) fun t => ?_
    · exact h
    · simp [Technology.setShare, Technology.update]
  · exact h

/-- When the technologies are shared out anew, the marks are taken away. -/
theorem marks_shareTechnologies (h : (s.shareTechnologies p).failure = none) :
    (s.shareTechnologies p).state.Marks p false := by
  obtain ⟨a, -, hlen, hstate⟩ := shareTechnologies_eq_ok h
  have hreset : (s.resetShares p).Marks p false := by
    refine List.forall_mem_map.2 fun t _ => ?_
    simp [Technology.resetShareWeight, Technology.setShare, Technology.update]
  rw [hstate]
  refine forall_mem_overVariable hlen (fun t ht _ => hreset t ht) fun t ht _ b _ => ?_
  have hmark := hreset t ht
  simpa [Technology.setShare, Technology.update] using hmark

/-- A recalibration of the technologies marks those with calibration data, if there is an output to
be shared out. -/
theorem marks_recalibrateTechnologies (hs : s.Marks p false) {variableOutput : α}
    (h : (s.recalibrateTechnologies p variableOutput).failure = none) :
    (s.recalibrateTechnologies p variableOutput).state.Marks p (!(variableOutput ≤ 0)) := by
  rcases recalibrateTechnologies_eq_ok h with ⟨hnobody, hstate⟩ | ⟨houtput, b, -, hlen, hstate⟩
  · -- There is nothing to be shared out, or nobody has calibration data.
    rw [hstate]
    intro t ht
    rw [hs t ht, Bool.false_and, eq_comm, Bool.and_eq_false_iff]
    refine hnobody.imp (fun hnothing => by simp [hnothing]) fun hnone => ?_
    refine Bool.eq_false_iff.2 fun hboth => ?_
    obtain ⟨hvariable, hcalibrated⟩ := Bool.and_eq_true_iff.1 hboth
    exact absurd (hcalibrated.symm.trans (hnone t (List.mem_filter.2 ⟨ht, hvariable⟩))) nofun
  · rw [hstate]
    refine forall_mem_overVariable hlen (fun t ht hfixed => ?_) fun t ht hvariable x _ => ?_
    · simpa [hfixed] using hs t ht
    · have hmark := hs t ht
      cases hcalibrated : t.isCalibrated p <;>
        simp_all [Technology.takeUp, Technology.isFixed, Technology.isCalibrated,
          Technology.setShare, Technology.setCalibratedShareWeight, Technology.update]

/-- The output that is left for the technologies that are not fixed. -/
def variableOutput (s : Subsector n α) (p : Fin n) : α :=
  Quantity.larger (s.results[p].output - s.fixedSupply p) 0

/-- It is what fixed supply left of the output when the output was served. -/
theorem variableOutput_serve {output : α} {calibrate : Bool}
    (h : (s.serve p output calibrate).failure = none) :
    (s.serve p output calibrate).state.variableOutput p
      = Quantity.larger (output - s.fixedSupply p) 0 := by
  obtain ⟨_, _, _, _, _, hresults⟩ := results_serve h
  have hsupply : (s.serve p output calibrate).state.fixedSupply p = s.fixedSupply p :=
    (s.framed_serve output calibrate).fixedSupply (by rw [hresults])
  rw [variableOutput, hsupply, hresults]

/-- An output that is served marks the technologies with calibration data, if calibration is on and
there is something left for them. -/
theorem Marks.serve (hs : s.Marks p false) {output : α} {calibrate : Bool}
    (h : (s.serve p output calibrate).failure = none) :
    (s.serve p output calibrate).state.Marks p
      (calibrate && !((s.serve p output calibrate).state.variableOutput p ≤ 0)) := by
  rw [variableOutput_serve h]
  obtain ⟨hready, hstate⟩ := serve_eq_ok h
  rw [hstate]
  refine Marks.takeStock (Marks.produce ?_ _) output
  cases calibrate with
  | true => exact marks_recalibrateTechnologies hs hready
  | false => exact hs

/-- Likewise for an output that a subsector does not refuse. The mark of the subsector itself is
kept. -/
theorem Marks.setOutput (hs : s.Marks p false) {output : α} {calibrate : Bool}
    (h : (s.setOutput p output calibrate).failure = none) :
    (s.setOutput p output calibrate).state.results[p].calibrated = s.results[p].calibrated ∧
      (s.setOutput p output calibrate).state.Marks p
        (calibrate && !((s.setOutput p output calibrate).state.variableOutput p ≤ 0)) := by
  obtain ⟨scale, hserve⟩ := exists_serve_of_ok h
  rw [hserve] at h ⊢
  obtain ⟨_, _, _, _, _, hresults⟩ := results_serve h
  refine ⟨?_, Marks.serve (s := s.withScale p scale) hs h⟩
  rw [hresults]
  simp [withScale, update]

end Subsector

namespace Sector

/-- Which share weights a calculation recalibrates: with calibration on, those of the subsectors
whose output calibration data determine, if there is any demand, and those of the technologies that
have calibration data and are not fixed, if any output of the subsector is left for them. These are
marked, and no others. -/
def Marks [Quantity α] (p : Fin n) (calibrate : Bool) (s : Sector n α) : Prop :=
  ∀ x ∈ s.subsectors,
    x.results[p].calibrated = (calibrate && 0 < s.results[p].demand && x.isCalibratable p) ∧
      x.Marks p (calibrate && !(x.variableOutput p ≤ 0))

variable [Quantity α] {s : Sector n α} {demand : α} {calibrate : Bool}

theorem isSome_targetShare (x : Subsector n α) :
    (targetShare p demand calibrate x).isSome
      = (calibrate && 0 < demand && x.isCalibratable p) := by
  unfold targetShare Subsector.calibrationTarget
  split
  · next hcalibrate =>
    rw [hcalibrate, Option.isSome_map]
    split <;> simp_all
  · next hcalibrate => rw [Bool.eq_false_iff.2 hcalibrate, Option.isSome_none, Bool.false_and]

/-- What is awarded to a subsector is one of the awards, with one of the contenders as they end up
and with the target of that subsector. -/
theorem exists_award_of_mem {fit : Sector n α} {a : Allocation α} {y : Subsector n α}
    (hy : y ∈ awardEach p fit.subsectors (decided (fit.aims p demand calibrate) a)) :
    ∃ x ∈ fit.subsectors, ∃ d ∈ a.awards,
      ∃ c ∈ (allocateAims (fit.aims p demand calibrate)).contenders,
        y = award p x d c (targetShare p demand calibrate x) := by
  obtain ⟨i, hi, rfl⟩ := List.mem_iff_getElem.1 hy
  simp only [awardEach, decided, aims, List.getElem_zipWith, List.getElem_zip, List.getElem_map]
  exact ⟨_, List.getElem_mem _, _, List.getElem_mem _, _, List.getElem_mem _, rfl⟩

/-- Fitting the fixed supply leaves the technologies alone. -/
theorem marks_fitted (hs : ∀ x ∈ s.subsectors, x.Marks p false) (demand : α) (calibrate : Bool) :
    ∀ x ∈ (s.fitted p demand calibrate).1.subsectors, x.Marks p false :=
  forall_mem_of_forall₂
    (s.forall₂_fitted (R := fun x y => x.Marks p false → y.Marks p false) (fun _ hx => hx)
      (fun _ _ hx => hx) demand calibrate)
    fun x hx _ hxy => hxy (hs x hx)

/-- Sharing out a demand marks the subsectors that have a target, and no technology. -/
theorem marks_shareSubsectors (hs : ∀ x ∈ s.subsectors, x.Marks p false)
    (h : (s.shareSubsectors p demand calibrate).failure = none) :
    ∀ x ∈ (s.shareSubsectors p demand calibrate).state.subsectors,
      x.results[p].calibrated = (calibrate && 0 < demand && x.isCalibratable p) ∧
        x.Marks p false := by
  have hfitted := marks_fitted hs demand calibrate
  obtain ⟨⟨fit, log⟩, hfit⟩ : ∃ x, s.fitted p demand calibrate = x := ⟨_, rfl⟩
  rw [hfit] at hfitted
  obtain ⟨a, -, hshared⟩ := shareSubsectors_eq_ok hfit h
  rw [hshared]
  intro y hy
  obtain ⟨x, hx, d, -, c, -, rfl⟩ := exists_award_of_mem hy
  refine ⟨?_, hfitted x hx⟩
  have hcalibratable : (award p x d c (targetShare p demand calibrate x)).isCalibratable p
      = x.isCalibratable p := rfl
  rw [hcalibratable, ← isSome_targetShare, award_eq_update]
  simp [Subsector.update]

theorem marks_prepareSubsectors {prices : GoodTable α}
    (h : (s.prepareSubsectors p prices).failure = none) :
    ∀ x ∈ (s.prepareSubsectors p prices).state.subsectors, x.Marks p false := by
  refine Run.forall_mem_state_each (fun x _ hx => ?_) h
  obtain ⟨hprepared, -⟩ := Run.failure_andThen.1 hx
  obtain ⟨hcosts, hshared⟩ := Run.failure_andThen.1 hprepared
  rw [Run.state_andThen hprepared, Run.state_andThen hcosts]
  exact Subsector.marks_shareTechnologies hshared

/-- After a calculation that came to its end those are marked whose share weights it recalibrated,
whatever was marked before. -/
theorem marks_calculate {prices : GoodTable α}
    (h : (s.calculate p demand prices calibrate).failure = none) :
    (s.calculate p demand prices calibrate).state.Marks p calibrate := by
  have hdemand := demand_calculate h
  obtain ⟨hprepared, hshared, hproduced, hstate⟩ := calculate_eq_ok h
  rw [hstate] at hdemand ⊢
  rw [Marks, hdemand]
  have hmarks := marks_shareSubsectors (marks_prepareSubsectors hprepared) hshared
  refine Run.forall_mem_state_each (fun x hx hserved => ?_) hproduced
  obtain ⟨hcalibrated, hmarked⟩ := hmarks x hx
  obtain ⟨hkept, hset⟩ := hmarked.setOutput hserved
  have hframed :=
    x.framed_setOutput (p := p) (x.results[p].share * Quantity.larger demand 0) calibrate
  refine ⟨?_, hset⟩
  rw [hkept, hcalibrated, hframed.isCalibratable]

end Sector

/-- The marks of all sectors. -/
def Region.Marks [Quantity α] (p : Fin n) (calibrate : Bool) (r : Region n α) : Prop :=
  ∀ s ∈ r.sectors, s.Marks p calibrate

end NestedLogit
