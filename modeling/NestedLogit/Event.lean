import NestedLogit.Choice.Allocation
import NestedLogit.Id

/-!
# Events

What a calculation reports while it runs. An event says how severe it is, which part of the program
reports it, and its text; amounts in the text are written by a function that is given.
-/

namespace NestedLogit

/-- How severe an event is. -/
inductive Severity where
  | error
  | warn
  | info
  | debug
  | trace
  deriving DecidableEq, Repr

/-- The word for a severity. -/
def Severity.label : Severity → String
  | .error => "ERROR"
  | .warn => "WARN"
  | .info => "INFO"
  | .debug => "DEBUG"
  | .trace => "TRACE"

/-- A severity's place in the order from severe to talkative. -/
def Severity.rank : Severity → Nat
  | .error => 1
  | .warn => 2
  | .info => 3
  | .debug => 4
  | .trace => 5

/-- A group of options that share a market. -/
inductive ChoiceGroup where
  /-- The technologies of a subsector. -/
  | technologies (subsector : SubsectorPath)
  /-- The subsectors of a sector. -/
  | subsectors (sector : SectorPath)
  deriving DecidableEq, Repr

/-- A group in words. -/
def ChoiceGroup.text : ChoiceGroup → String
  | .technologies path => s!"Technology shares for subsector {path.text}"
  | .subsectors path => s!"Subsector shares for sector {path.text}"

/-- Something that a calculation reports. -/
inductive Event (α : Type) where
  /-- Nobody competed for the open part of a group's market, and a fallback was used. -/
  | fallbackUsed (group : ChoiceGroup) (period : Nat) (fallback : Fallback)
  /-- Fixed supply was larger than demand. -/
  | fixedSupplyExceedsDemand (sector : SectorPath) (period : Nat) (supply demand : α)
  /-- A technology missed its calibration target. -/
  | technologyNotCalibrated (technology : TechnologyPath) (period : Nat) (output target : α)
  /-- A region that was to be calculated is not in the model. -/
  | regionSkipped (region : RegionId)
  /-- A period was finished. -/
  | periodFinished (year regions calculations : Nat)
  /-- The climate model was run. -/
  | emissionsCumulated (period : Nat) (total : α)
  /-- The calculation of a period begins. -/
  | calculating (year : Nat)
  /-- Some technology missed its calibration target in a period. -/
  | modelNotCalibrated (year : Nat)

namespace Event

variable {α : Type}

/-- How severe an event is. -/
def severity : Event α → Severity
  | .fallbackUsed .. => .warn
  | .fixedSupplyExceedsDemand .. => .warn
  | .technologyNotCalibrated .. => .warn
  | .regionSkipped .. => .debug
  | .periodFinished .. => .info
  | .emissionsCumulated .. => .info
  | .calculating .. => .info
  | .modelNotCalibrated .. => .warn

/-- The part of the program that reports an event. -/
def source : Event α → String
  | .fallbackUsed (.technologies _) .. => "equishare::subsector"
  | .fallbackUsed (.subsectors _) .. => "equishare::sector"
  | .fixedSupplyExceedsDemand .. => "equishare::sector"
  | .technologyNotCalibrated .. => "equishare::subsector"
  | .regionSkipped .. => "equishare::world"
  | .periodFinished .. => "equishare::world"
  | .emissionsCumulated .. => "equishare::climate"
  | .calculating .. => "equishare::simulation"
  | .modelNotCalibrated .. => "equishare::simulation"

/-- The text of an event, with calculated amounts written in a given way. -/
def text (amount : α → String) : Event α → String
  | .fallbackUsed group period fallback => s!"{group.text} (period {period}): {fallback.text}"
  | .fixedSupplyExceedsDemand path period supply demand =>
    s!"Fixed supply of {amount supply} for sector {path.text} exceeds demand of {amount demand} "
      ++ s!"in period {period}; scaling it down"
  | .technologyNotCalibrated path period output target =>
    s!"Technology {path.text} is not calibrated in period {period}: "
      ++ s!"output {amount output}, target {amount target}"
  | .regionSkipped region => s!"Region {region} is not in the model; skipping"
  | .periodFinished year regions calculations =>
    s!"Finished {year}: {regions} regions calculated {calculations} times in total"
  | .emissionsCumulated period total =>
    s!"Cumulative emissions to period {period}: {amount total}"
  | .calculating year => s!"Calculating {year}"
  | .modelNotCalibrated year => s!"Model is not calibrated in {year}"

end Event

end NestedLogit
