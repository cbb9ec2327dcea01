import NestedLogit.World

/-!
# Calibration checks

Whether technologies produce what their calibration data say. A check passes over no technology,
also where an earlier one has missed its target, so that every failure can be warned of.
-/

namespace NestedLogit

/-- What a check finds: whether everything is as it should be, and the warnings given on the way. -/
structure Verdict (α : Type) where
  passed : Bool
  warnings : List (Event α)

namespace Verdict

variable {α σ : Type}

/-- The verdict where there is nothing to check. -/
def pass : Verdict α :=
  ⟨true, []⟩

/-- A verdict together with a later one, whose warnings are given in any case. -/
def both (first second : Verdict α) : Verdict α :=
  ⟨first.passed && second.passed, first.warnings ++ second.warnings⟩

/-- The verdict on all members of a list, which are checked in order. -/
def all (check : σ → Verdict α) (xs : List σ) : Verdict α :=
  xs.foldl (fun verdict x => verdict.both (check x)) pass

end Verdict

variable {n : Nat} {α : Type} [Quantity α]

/-- Checks a technology of a subsector; without calibration data there is nothing to check. -/
def Subsector.checkTechnology (s : Subsector n α) (p : Fin n) (accuracy : α) (warn : Bool)
    (t : Technology n α) : Verdict α :=
  match t.parameters[p].calibrationOutput with
  | none => .pass
  | some target =>
    let output := t.results[p].output
    if isWithinAccuracy output target accuracy then .pass
    else ⟨false,
      if warn then [.technologyNotCalibrated (s.technologyPath t) p output target] else []⟩

/-- Checks the technologies of a subsector. -/
def Subsector.checkCalibration (s : Subsector n α) (p : Fin n) (accuracy : α) (warn : Bool) :
    Verdict α :=
  Verdict.all (s.checkTechnology p accuracy warn) s.technologies

/-- Checks the technologies of a sector. -/
def Sector.checkCalibration (s : Sector n α) (p : Fin n) (accuracy : α) (warn : Bool) :
    Verdict α :=
  Verdict.all (·.checkCalibration p accuracy warn) s.subsectors

/-- Checks the technologies of a region. -/
def Region.checkCalibration (r : Region n α) (p : Fin n) (accuracy : α) (warn : Bool) :
    Verdict α :=
  Verdict.all (·.checkCalibration p accuracy warn) r.sectors

/-- Checks the technologies of a world. -/
def World.checkCalibration (w : World n α) (p : Fin n) (accuracy : α) (warn : Bool) :
    Verdict α :=
  Verdict.all (·.checkCalibration p accuracy warn) w.regions

end NestedLogit
