import NestedLogit.Climate
import NestedLogit.Policy
import NestedLogit.Region

/-!
# The world

All regions of a model. A solver calculates the world for a period again and again, for all regions
or for those it names, and sets market prices between the calculations; when it is done with the
period, the period is finished and recalibrated share weights are carried forward.
-/

namespace NestedLogit

/-- A region that is in the world already. -/
structure DuplicateRegion where
  region : RegionId
  deriving DecidableEq, Repr

/-- The message for a region that is in the world already. -/
def DuplicateRegion.message (e : DuplicateRegion) : String :=
  s!"Duplicate region {e.region}"

/-- The regions of a model with its `n` periods. -/
structure World (n : Nat) (α : Type) where
  calendar : Calendar n
  regions : List (Region n α)
  /-- Whether calculations recalibrate share weights. -/
  calibrate : Bool
  /-- How many times the world was calculated. -/
  calculations : Nat
  /-- The climate model, if there is one. -/
  climate : Option (EmissionsAccount α)

namespace World

variable {n : Nat} {α : Type}

/-- Checks that regions have different names, given the names before them. -/
def checkRegions : List RegionId → List (Region n α) → Except DuplicateRegion Unit
  | _, [] => .ok ()
  | seen, r :: rest =>
    if r.id ∈ seen then .error ⟨r.id⟩ else checkRegions (r.id :: seen) rest

/-- The world of some regions, with calibration on and without a climate model. -/
def ofRegions (calendar : Calendar n) (regions : List (Region n α)) :
    Except DuplicateRegion (World n α) := do
  checkRegions [] regions
  return { calendar, regions, calibrate := true, calculations := 0, climate := none }

/-- The names of the regions, in order. -/
def regionIds (w : World n α) : List RegionId :=
  w.regions.map (·.id)

/-- The position of a region. -/
def position? (w : World n α) (id : RegionId) : Option Nat :=
  w.regions.findIdx? fun r => r.id = id

/-- A region by its name. -/
def region? (w : World n α) (id : RegionId) : Option (Region n α) :=
  w.regions.find? fun r => r.id = id

/-- Adds a region at the end. -/
def addRegion (w : World n α) (r : Region n α) : Except DuplicateRegion (World n α) :=
  if (w.region? r.id).isSome then .error ⟨r.id⟩ else .ok { w with regions := w.regions ++ [r] }

/-- The positions of the regions that a calculation is for: of all regions if none is named, else of
those named that are in the world, in order and each once. -/
def selection (w : World n α) (ids : List RegionId) : List Nat :=
  if ids.isEmpty then List.range w.regions.length
  else ((ids.filterMap w.position?).mergeSort (· ≤ ·)).eraseReps

/-- The regions named that are not in the world, as events. -/
def skipped (w : World n α) (ids : List RegionId) : List (Event α) :=
  (ids.filter fun id => (w.position? id).isNone).map .regionSkipped

/-- Runs a step for a period, given by its number, that the calendar has to have. -/
def inPeriod (w : World n α) (period : Nat) (step : Fin n → Run α (World n α)) :
    Run α (World n α) :=
  match w.calendar.checkPeriod period with
  | .ok p => step p
  | .error e => .fail w (.periodOutOfRange e)

/-- Forgets the calculated market quantities of a period in every region. -/
def prepare (w : World n α) (period : Nat) : Run α (World n α) :=
  w.inPeriod period fun p => .ok { w with regions := w.regions.map (·.clearPeriod p) }

/-- Turns calibration on or off. -/
def setCalibration (w : World n α) (on : Bool) : World n α :=
  { w with calibrate := on }

/-- Counts calculations from a given number on. -/
def countFrom (w : World n α) (calculations : Nat) : World n α :=
  { w with calculations }

/-- Gives the world a climate model. -/
def setClimate (w : World n α) (climate : EmissionsAccount α) : World n α :=
  { w with climate := some climate }

/-- Imposes the tax of a policy in the regions it covers. -/
def setTax (w : World n α) (policy : Policy n α) : World n α :=
  { w with
    regions := w.regions.map fun r =>
      if policy.covers r.id then { r with carbonTax := policy.tax } else r }

/-- Changes the region with a given name. -/
def modifyRegion (w : World n α) (id : RegionId) (f : Region n α → Region n α) : World n α :=
  { w with regions := w.regions.map fun r => if r.id = id then f r else r }

/-- The price of a good in a region. -/
def marketPrice? (w : World n α) (region : RegionId) (good : GoodId) (period : Nat) : Option α :=
  (w.region? region).bind fun r => GoodTable.amount? r.market.prices good period

/-- The supply of a good in a region. -/
def marketSupply? (w : World n α) (region : RegionId) (good : GoodId) (period : Nat) : Option α :=
  (w.region? region).bind fun r => GoodTable.amount? r.market.supplies good period

/-- The demand for a good in a region. -/
def marketDemand? (w : World n α) (region : RegionId) (good : GoodId) (period : Nat) : Option α :=
  (w.region? region).bind fun r => GoodTable.amount? r.market.demands good period

variable [Quantity α]

/-- Calculates the regions at given positions, in the order in which they stand. The first one that
stops ends the calculation. -/
def calculateAt (p : Fin n) (calibrate : Bool) (positions : List Nat) :
    Nat → List (Region n α) → Run α (List (Region n α))
  | _, [] => .ok []
  | i, r :: rest =>
    let run := if i ∈ positions then
        (r.calculate p calibrate).within (.calculatingRegion r.id)
      else .ok r
    match run.failure with
    | some e => ⟨run.state :: rest, run.log, some e⟩
    | none =>
      let run' := calculateAt p calibrate positions (i + 1) rest
      ⟨run.state :: run'.state, run.log ++ run'.log, run'.failure⟩

/-- Calculates a period for the regions named, or for all of them if none is named. Names that are
not in the world are skipped. -/
def calculate (w : World n α) (period : Nat) (ids : List RegionId) : Run α (World n α) :=
  let w := { w with calculations := w.calculations + 1 }
  w.inPeriod period fun p =>
    ((calculateAt p w.calibrate (w.selection ids) 0 w.regions).map
      fun regions => { w with regions }).after (w.skipped ids)

/-- Finishes a period: recalibrated share weights are carried forward to later periods. -/
def finish (w : World n α) (period : Nat) : Run α (World n α) :=
  w.inPeriod period fun p =>
    let regions := w.regions.map (·.carryForward w.calendar p)
    ⟨{ w with regions },
      [.periodFinished (w.calendar.year p) w.regions.length w.calculations], none⟩

/-- The technologies that miss their calibration output, as events, in tree order. -/
def miscalibrations (w : World n α) (p : Fin n) (accuracy : α) : List (Event α) :=
  w.regions.flatMap (·.miscalibrations p accuracy)

/-- The technologies that miss their calibration output in a period that is given by its number.
Without technologies there are none in any period, known or not. -/
def miscalibrationsIn? (w : World n α) (period : Nat) (accuracy : α) : Option (List (Event α)) :=
  if (w.regions.flatMap (·.technologies)).isEmpty then some []
  else (w.calendar.period? period).map (w.miscalibrations · accuracy)

/-- Sets the price of a good in a region. -/
def setMarketPrice (w : World n α) (region : RegionId) (good : GoodId) (period : Nat) (price : α) :
    Run α (World n α) :=
  w.inPeriod period fun p =>
    if !Quantity.isFinite price then .fail w (.invalidPrice price good)
    else if (w.region? region).isNone then .fail w (.unknownRegion region)
    else .ok (w.modifyRegion region fun r =>
      { r with market := { r.market with prices := GoodTable.put r.market.prices good p price } })

/-- Hands the emissions of every region to the climate model, if there is one, and runs it. -/
def runClimate (w : World n α) (period : Nat) : Run α (World n α) :=
  w.inPeriod period fun p =>
    match w.climate with
    | none => .ok w
    | some account =>
      let account := (w.regions.foldl (fun a r => a.setEmissions r.id p (r.emissions p))
        account).run p
      ⟨{ w with climate := some account }, account.report p, none⟩

end World

end NestedLogit
