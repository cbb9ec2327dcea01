import Mathlib.Data.List.Forall2
import NestedLogit.CalibrationCheck
import NestedLogit.Proofs.World.Frame
import NestedLogit.Visit

/-!
# What a calibration check finds

A check of many members finds what the checks of the single members find: it passes if all of them
pass, and its warnings are theirs, one after another. Through subsectors, sectors and regions this
leads from the check of a world to its technologies, each of which counts for itself. None of them
keeps another from being warned of.

## Main definitions

- `Technology.Meets` — that a technology produces what its calibration data say
- `Technology.WarnedOf` — that an event is the warning of a technology

## Main statements

- `Verdict.all_eq_of` — the verdict on the members of a list
- `World.checkCalibration_eq` — the verdict on a world, from the technologies that it misses
- `World.checkCalibration_complete` — what the check of a world finds
-/

namespace NestedLogit

variable {n : ℕ} {α σ : Type}

namespace Verdict

variable {warn : Bool}

/-- The verdict on what some technologies have missed, with the events that say so as warnings where
these are wanted. -/
def of (warn : Bool) (missed : List (Event α)) : Verdict α :=
  ⟨missed.isEmpty, if warn then missed else []⟩

theorem both_of (xs ys : List (Event α)) : (of warn xs).both (of warn ys) = of warn (xs ++ ys) := by
  cases xs <;> cases warn <;> rfl

theorem foldl_both_of {check : σ → Verdict α} {missed : σ → List (Event α)}
    (h : ∀ x, check x = of warn (missed x)) (done : List (Event α)) (xs : List σ) :
    xs.foldl (fun verdict x => verdict.both (check x)) (of warn done)
      = of warn (done ++ xs.flatMap missed) := by
  induction xs generalizing done with
  | nil => rw [List.foldl_nil, List.flatMap_nil, List.append_nil]
  | cons x rest ih =>
    rw [List.foldl_cons, h x, both_of, ih, List.flatMap_cons, List.append_assoc]

/-- The verdict on all members takes into account what any of them misses, in order. -/
theorem all_eq_of {check : σ → Verdict α} {missed : σ → List (Event α)}
    (h : ∀ x, check x = of warn (missed x)) (xs : List σ) :
    all check xs = of warn (xs.flatMap missed) := by
  have hpass : (pass : Verdict α) = of warn [] := by cases warn <;> rfl
  rw [all, hpass, foldl_both_of h, List.nil_append]

end Verdict

/-- The technology that is visited, with its subsector. -/
def Visit.technology? : Visit n α → Option (Subsector n α × Technology n α)
  | .technology parent t => some (parent, t)
  | _ => none

/-- The technologies of a world with their subsectors, in the order of a walk through it. -/
def World.visitedTechnologies (w : World n α) : List (Subsector n α × Technology n α) :=
  w.visits.filterMap Visit.technology?

section Walk

/-- The technologies of a subsector together with it. -/
def Subsector.visitedTechnologies (s : Subsector n α) : List (Subsector n α × Technology n α) :=
  s.technologies.map (s, ·)

theorem Subsector.filterMap_visits (s : Subsector n α) :
    s.visits.filterMap Visit.technology? = s.visitedTechnologies := by
  rw [visits, List.filterMap_cons_none rfl, List.filterMap_map, visitedTechnologies]
  exact congrFun List.filterMap_eq_map' s.technologies

theorem World.visitedTechnologies_eq (w : World n α) :
    w.visitedTechnologies = w.regions.flatMap fun r => r.sectors.flatMap fun s =>
      s.subsectors.flatMap (·.visitedTechnologies) := by
  have hsector : ∀ s : Sector n α, s.visits.filterMap Visit.technology?
      = s.subsectors.flatMap (·.visitedTechnologies) := by
    intro s
    rw [Sector.visits, List.filterMap_cons_none rfl, List.filterMap_flatMap]
    simp only [Subsector.filterMap_visits]
  have hregion : ∀ r : Region n α, r.visits.filterMap Visit.technology?
      = r.sectors.flatMap fun s => s.subsectors.flatMap (·.visitedTechnologies) := by
    intro r
    rw [Region.visits, List.filterMap_cons_none rfl, List.filterMap_flatMap]
    simp only [hsector]
  rw [visitedTechnologies, visits, List.filterMap_flatMap]
  simp only [hregion]

/-- A walk comes to all technologies of all regions. -/
theorem World.map_snd_visitedTechnologies (w : World n α) :
    w.visitedTechnologies.map (·.2) = w.regions.flatMap (·.technologies) := by
  have hsubsector : ∀ s : Subsector n α, s.visitedTechnologies.map (·.2) = s.technologies := by
    intro s
    rw [Subsector.visitedTechnologies, List.map_map]
    exact List.map_id _
  rw [visitedTechnologies_eq]
  simp only [List.map_flatMap, hsubsector, Region.technologies, Sector.technologies]

end Walk

variable [Quantity α] {p : Fin n} {accuracy : α} {warn : Bool}

/-- A technology produces what its calibration data say, if it has some. -/
def Technology.Meets (t : Technology n α) (p : Fin n) (accuracy : α) : Prop :=
  ∀ target, t.parameters[p].calibrationOutput = some target →
    isWithinAccuracy t.results[p].output target accuracy = true

instance (t : Technology n α) : Decidable (t.Meets p accuracy) :=
  decidable_of_iff (t.parameters[p].calibrationOutput.all fun target =>
    isWithinAccuracy t.results[p].output target accuracy) (Option.all_eq_true _ _)

/-- An event warns that a technology does not produce what its calibration data say. -/
def Technology.WarnedOf (p : Fin n) (x : Subsector n α × Technology n α) (e : Event α) : Prop :=
  ∃ target, x.2.parameters[p].calibrationOutput = some target ∧
    e = .technologyNotCalibrated (x.1.technologyPath x.2) p x.2.results[p].output target

/-- The warning of a technology, if it does not produce what its calibration data say. -/
def Technology.warning? (p : Fin n) (accuracy : α) (x : Subsector n α × Technology n α) :
    Option (Event α) :=
  x.2.parameters[p].calibrationOutput.bind fun target =>
    if isWithinAccuracy x.2.results[p].output target accuracy then none
    else some (.technologyNotCalibrated (x.1.technologyPath x.2) p x.2.results[p].output target)

section Warnings

variable {x : Subsector n α × Technology n α}

theorem Technology.warning?_of_meets (h : x.2.Meets p accuracy) :
    Technology.warning? p accuracy x = none := by
  refine Option.bind_eq_none_iff.2 fun target htarget => ?_
  exact if_pos (h target htarget)

theorem Technology.exists_warning? (h : ¬x.2.Meets p accuracy) :
    ∃ e, Technology.warning? p accuracy x = some e ∧ Technology.WarnedOf p x e := by
  simp only [Meets, not_forall, exists_prop] at h
  obtain ⟨target, htarget, hmissed⟩ := h
  refine ⟨_, ?_, target, htarget, rfl⟩
  exact Option.bind_eq_some_iff.2 ⟨target, htarget, if_neg hmissed⟩

/-- There is one warning for each technology that fails, in the order of the technologies. -/
theorem Technology.forall₂_warning? (p : Fin n) (accuracy : α)
    (xs : List (Subsector n α × Technology n α)) :
    List.Forall₂ (Technology.WarnedOf p) (xs.filter fun x => ¬x.2.Meets p accuracy)
      (xs.filterMap (Technology.warning? p accuracy)) := by
  induction xs with
  | nil => exact .nil
  | cons x rest ih =>
    by_cases hx : x.2.Meets p accuracy
    · rw [List.filter_cons_of_neg (by simpa using hx),
        List.filterMap_cons_none (warning?_of_meets hx)]
      exact ih
    · obtain ⟨e, he, hwarned⟩ := exists_warning? hx
      rw [List.filter_cons_of_pos (by simpa using hx), List.filterMap_cons_some he]
      exact .cons hwarned ih

end Warnings

namespace Subsector

variable (s : Subsector n α)

theorem checkTechnology_eq (t : Technology n α) :
    s.checkTechnology p accuracy warn t
      = .of warn (Technology.warning? p accuracy (s, t)).toList := by
  unfold checkTechnology Technology.warning?
  cases t.parameters[p].calibrationOutput with
  | none => cases warn <;> rfl
  | some target =>
    rw [Option.bind_some]
    dsimp only
    split <;> cases warn <;> rfl

theorem checkCalibration_eq :
    s.checkCalibration p accuracy warn = .of warn (s.miscalibrations p accuracy) := by
  rw [checkCalibration, Verdict.all_eq_of s.checkTechnology_eq]
  exact congrArg (Verdict.of warn) (List.filterMap_eq_flatMap_toList _ _).symm

end Subsector

theorem Sector.checkCalibration_eq (s : Sector n α) :
    s.checkCalibration p accuracy warn = .of warn (s.miscalibrations p accuracy) :=
  Verdict.all_eq_of (·.checkCalibration_eq) s.subsectors

theorem Region.checkCalibration_eq (r : Region n α) :
    r.checkCalibration p accuracy warn = .of warn (r.miscalibrations p accuracy) :=
  Verdict.all_eq_of (·.checkCalibration_eq) r.sectors

namespace World

variable (w : World n α)

/-- The verdict on a world takes into account every technology that misses its calibration output,
in tree order. -/
theorem checkCalibration_eq :
    w.checkCalibration p accuracy warn = .of warn (w.miscalibrations p accuracy) :=
  Verdict.all_eq_of (·.checkCalibration_eq) w.regions

theorem miscalibrations_eq :
    w.miscalibrations p accuracy
      = w.visitedTechnologies.filterMap (Technology.warning? p accuracy) := by
  have hsubsector : ∀ s : Subsector n α, s.miscalibrations p accuracy
      = s.visitedTechnologies.filterMap (Technology.warning? p accuracy) := by
    intro s
    rw [Subsector.visitedTechnologies, List.filterMap_map]
    rfl
  rw [visitedTechnologies_eq]
  simp only [List.filterMap_flatMap, ← hsubsector]
  rfl

theorem miscalibrations_eq_nil_iff :
    w.miscalibrations p accuracy = [] ↔
      ∀ r ∈ w.regions, ∀ t ∈ r.technologies, t.Meets p accuracy := by
  have hplaced : w.miscalibrations p accuracy = [] ↔
      ∀ x ∈ w.visitedTechnologies, x.2.Meets p accuracy := by
    rw [miscalibrations_eq, List.filterMap_eq_nil_iff]
    refine forall₂_congr fun x _ => ⟨fun hnone => ?_, Technology.warning?_of_meets⟩
    by_contra hx
    obtain ⟨e, he, -⟩ := Technology.exists_warning? hx
    cases hnone.symm.trans he
  have hmap : (∀ t ∈ w.visitedTechnologies.map (·.2), t.Meets p accuracy) ↔
      ∀ x ∈ w.visitedTechnologies, x.2.Meets p accuracy := by
    rw [List.forall_mem_map]
  rw [hplaced, ← hmap, map_snd_visitedTechnologies]
  simp only [List.forall_mem_flatMap]

/-- The check of a world passes exactly if every technology of every region produces what its
calibration data say, if it has some. It gives one warning for each technology that does not, in the
order of a walk through the world, or none at all if warnings are not wanted. -/
theorem checkCalibration_complete (p : Fin n) (accuracy : α) (warn : Bool) :
    ((w.checkCalibration p accuracy warn).passed = true ↔
        ∀ r ∈ w.regions, ∀ t ∈ r.technologies, ∀ target,
          t.parameters[p].calibrationOutput = some target →
            isWithinAccuracy t.results[p].output target accuracy = true) ∧
      List.Forall₂ (Technology.WarnedOf p)
        (w.visitedTechnologies.filter fun x => ¬x.2.Meets p accuracy)
        (w.checkCalibration p accuracy true).warnings ∧
      (w.checkCalibration p accuracy false).warnings = [] := by
  simp only [checkCalibration_eq]
  refine ⟨?_, ?_, rfl⟩
  · exact List.isEmpty_iff.trans w.miscalibrations_eq_nil_iff
  · have hwarnings := Technology.forall₂_warning? p accuracy w.visitedTechnologies
    rwa [← miscalibrations_eq] at hwarnings

/-- Four wind farms on two islands that have not produced anything yet are warned of. -/
example : ((windyWorld.checkCalibration 0 0 true).passed,
    (windyWorld.checkCalibration 0 0 true).warnings.length) = (false, 4) := by
  decide +kernel

end World

end NestedLogit
