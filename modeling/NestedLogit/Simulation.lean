import NestedLogit.CalibrationCheck
import NestedLogit.Model.Tables
import NestedLogit.Report

/-!
# Simulations

A model is run period by period. Market prices are those that were loaded, so that every region is
calculated once per period. Share weights that are recalibrated in a period are carried forward to
the next ones.
-/

namespace NestedLogit

/-- A simulation: the world as it is, and the reports on the periods that are done. -/
structure Simulation (n : Nat) (α : Type) where
  world : World n α
  reports : List (PeriodReport α)

variable {n : Nat} {α : Type} [Quantity α]

/-- The technologies that miss their calibration output in a period, and a summary, as events. There
are none if nothing is calibrated or checked. -/
def World.calibrationCheck (w : World n α) (parameters : Parameters α) (p : Fin n) :
    List (Event α) :=
  if parameters.calibrate && parameters.checkCalibration then
    let verdict := w.checkCalibration p parameters.accuracy true
    if verdict.passed then verdict.warnings
    else verdict.warnings ++ [.modelNotCalibrated (w.calendar.year p)]
  else []

/-- Calculates a period, checks its calibration and runs the climate model. -/
def World.advance (w : World n α) (parameters : Parameters α) (p : Fin n) : Run α (World n α) :=
  let year := w.calendar.year p
  ((((Run.ok w).after [.calculating year]).andThen (·.prepare p)).andThen
    fun w => (w.calculate p []).within (.calculatingYear year)).andThen
    fun w => (w.runClimate p).after (w.calibrationCheck parameters p)

/-- Calculates a period, reports on it and finishes it. -/
def Simulation.step (s : Simulation n α) (parameters : Parameters α) (p : Fin n) :
    Run α (Simulation n α) :=
  ((s.world.advance parameters p).map (⟨·, s.reports⟩)).andThen fun s =>
    (s.world.finish p).map (⟨·, s.reports ++ [s.world.report p parameters.accuracy]⟩)

namespace Model

/-- The world of a model at the beginning of a simulation: with an empty climate model, with the
taxes of the policies, and with calibration as the parameters say. -/
def initialWorld (m : Model α) : World m.parameters.periods α :=
  (m.policies.foldl World.setTax (m.world.setClimate .empty)).setCalibration m.parameters.calibrate

/-- Runs a model through all of its periods, or up to the one whose calculation stops. -/
def simulate (m : Model α) : Run α (Simulation m.parameters.periods α) :=
  (List.finRange m.parameters.periods).foldl (fun run p => run.andThen (·.step m.parameters p))
    (.ok ⟨m.initialWorld, []⟩)

end Model

end NestedLogit
