import NestedLogit.Calendar
import NestedLogit.Host
import NestedLogit.Quantity.Double
import NestedLogit.Toml.Reader

/-!
# Parameters of a model

What a model as a whole is given: its years, whether share weights are calibrated, how close
calibrated outputs have to come to their targets, and whether that is checked.
-/

namespace NestedLogit

/-- The contents of a parameter file. -/
structure ParameterFile (α : Type) where
  years : List Nat
  calibrate : Bool
  accuracy : α
  checkCalibration : Bool

/-- Parameters that are consistent. -/
structure Parameters (α : Type) where
  /-- The number of periods. -/
  periods : Nat
  calendar : Calendar periods
  /-- Whether share weights are recalibrated to match calibration outputs. -/
  calibrate : Bool
  /-- How close an output has to come to its target. -/
  accuracy : α
  /-- Whether outputs are compared with their targets after each period. -/
  checkCalibration : Bool

/-- Why there are no parameters. -/
inductive ParametersError where
  /-- The parameter file cannot be read. -/
  | unreadable (cause : AccessError)
  /-- The file is no document, or its values are not those of parameters. -/
  | malformed
  | noYears
  | unorderedYears
  | invalidAccuracy
  deriving DecidableEq, Repr

/-- The message for parameters that cannot be read or are not accepted. -/
def ParametersError.message : ParametersError → String
  | .unreadable cause => cause.message
  | .malformed => "invalid TOML"
  | .noYears => "`years` is empty"
  | .unorderedYears => "`years` must be composed of unique values in order"
  | .invalidAccuracy => "calibration_accuracy must be a finite number greater than zero"

/-- The parameters of a file, if they are consistent. -/
def Parameters.ofFile {α : Type} [Quantity α] (f : ParameterFile α) :
    Except ParametersError (Parameters α) :=
  match Calendar.ofYears f.years with
  | .error .empty => .error .noYears
  | .error .unordered => .error .unorderedYears
  | .ok calendar =>
    if Quantity.isFinite f.accuracy && 0 < f.accuracy then
      .ok ⟨f.years.length, calendar, f.calibrate, f.accuracy, f.checkCalibration⟩
    else .error .invalidAccuracy

/-- The contents of a parameter file that is given as a document. -/
def ParameterFile.ofDocument? (fields : Toml.Fields) : Option (ParameterFile Float) := do
  let years ← Toml.field? fields "years" (Toml.Value.list? (Toml.Value.natural? (Nat.pow 2 32)))
  let calibrate ← Toml.field? fields "calibrations" Toml.Value.boolean?
  let accuracy ← Toml.field? fields "calibration_accuracy" Toml.Value.number?
  let checkCalibration ← Toml.field? fields "check_calibration" Toml.Value.boolean?
  return {
    years := ← years
    calibrate := calibrate.getD true
    accuracy := accuracy.getD 0.001
    checkCalibration := checkCalibration.getD true }

/-- The parameters that a file gives. -/
def Parameters.ofFileText (text : Except AccessError String) :
    Except ParametersError (Parameters Float) :=
  match text with
  | .error cause => .error (.unreadable cause)
  | .ok text =>
    match (Toml.read? text).bind ParameterFile.ofDocument? with
    | none => .error .malformed
    | some f => Parameters.ofFile f

end NestedLogit
