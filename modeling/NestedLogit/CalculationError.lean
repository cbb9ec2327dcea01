import NestedLogit.Calendar
import NestedLogit.Choice.Allocation
import NestedLogit.Id

/-!
# Errors of a calculation

Why a calculation stopped, and in the course of what. A message is a chain of links, the outermost
activity first and the cause last.
-/

namespace NestedLogit

/-- What was being done when a calculation stopped. -/
inductive Activity where
  | sharingTechnologies (subsector : SubsectorPath)
  | recalibratingTechnologies (subsector : SubsectorPath)
  | sharingSubsectors (sector : SectorPath)
  | calculatingSector (sector : SectorPath)
  | calculatingRegion (region : RegionId)
  | calculatingYear (year : Nat)
  deriving DecidableEq, Repr

/-- An activity that failed, in words. -/
def Activity.text : Activity → String
  | .sharingTechnologies path => s!"Failed to allocate technology shares for subsector {path.text}"
  | .recalibratingTechnologies path =>
    s!"Failed to recalibrate technologies in subsector {path.text}"
  | .sharingSubsectors path => s!"Failed to allocate subsector shares for sector {path.text}"
  | .calculatingSector path => s!"Failed to calculate sector {path.text}"
  | .calculatingRegion region => s!"Failed to calculate region {region}"
  | .calculatingYear year => s!"Failed to calculate {year}"

/-- Why a calculation stopped. -/
inductive CalculationError (α : Type) where
  /-- A period was asked for that the entity has no data for. -/
  | noSuchPeriod
  /-- A period was asked for that the model does not have. -/
  | periodOutOfRange (cause : PeriodOutOfRange)
  /-- A market could not be shared out. -/
  | allocation (cause : AllocationError α)
  /-- The fuel of a technology has no price. -/
  | missingPrice (fuel : GoodId) (period : Nat) (technology : TechnologyPath)
  /-- A subsector was to produce a negative output. -/
  | negativeOutput (output : α) (subsector : SubsectorPath)
  /-- A subsector has no technology that could produce its output. -/
  | unservedOutput (output : α) (subsector : SubsectorPath)
  /-- A region is not in the model. -/
  | unknownRegion (region : RegionId)
  /-- A market price is not finite. -/
  | invalidPrice (price : α) (good : GoodId)
  /-- The calculation stopped in the course of an activity. -/
  | within (activity : Activity) (cause : CalculationError α)

section Messages

variable {α : Type} (amount : α → String)

/-- The message for a pool that could not be shared out. -/
def LimitError.message : LimitError α → String
  | .unallocated rest => s!"Capacity limits leave a share of {amount rest} unallocated"
  | .notConverged =>
    s!"Capacity-limit transform did not converge after {maxLimitPasses} iterations"

/-- The message for a market that could not be shared out. -/
def AllocationError.message : AllocationError α → String
  | .capacityLimitOutside limit => s!"Capacity limit {amount limit} is not between 0 and 1"
  | .fixedShareOutside share => s!"Fixed share {amount share} is not between 0 and 1"
  | .fixedShareAboveLimit share limit =>
    s!"Fixed share {amount share} exceeds capacity limit {amount limit}"
  | .fixedSharesAboveOne total =>
    s!"Fixed shares sum to {amount total}, which is greater than one"
  | .nobodyAvailable => "No option is available to supply the market"
  | .limits cause => cause.message amount

/-- The links of the message for a calculation that stopped, the outermost first. -/
def CalculationError.chain : CalculationError α → List String
  | .noSuchPeriod => ["No such period"]
  | .periodOutOfRange cause => [cause.message]
  | .allocation cause => [cause.message amount]
  | .missingPrice fuel period path =>
    [s!"No market price for {fuel} in period {period}, required by technology {path.text}"]
  | .negativeOutput output path => [s!"Negative output {amount output} for subsector {path.text}"]
  | .unservedOutput output path =>
    [s!"Subsector {path.text} has no technology able to supply an output of {amount output}"]
  | .unknownRegion region => [s!"Unknown region {region}"]
  | .invalidPrice price good => [s!"Invalid price {amount price} for {good}"]
  | .within activity cause => activity.text :: cause.chain

end Messages

/-- Whether an error is a period that does not exist, in the course of whatever activity. -/
def CalculationError.isNoSuchPeriod {α : Type} : CalculationError α → Bool
  | .noSuchPeriod => true
  | .within _ cause => cause.isNoSuchPeriod
  | _ => false

end NestedLogit
