import NestedLogit.Choice.Recalibration
import NestedLogit.Market
import NestedLogit.Run
import NestedLogit.Technology

/-!
# Subsectors

A subsector shares out its output between its technologies and competes with the other subsectors of
its sector. Technologies whose output is fixed take no part in the choice and supply their fixed
output, scaled where it does not fit.
-/

namespace NestedLogit

/-- What is given for a subsector in one period, apart from its base share weight. -/
structure SubsectorParameters (α : Type) where
  /-- Whether the base share weight is given explicitly. -/
  anchored : Bool
  /-- How strongly the share reacts to the price. -/
  logitExponent : α
  /-- The largest share of the sector's output. -/
  capacityLimit : α
  /-- A share of the sector's output that is imposed from outside. -/
  fixedShare : Option α

/-- What is calculated for a subsector in one period. -/
structure SubsectorResult (α : Type) where
  /-- The share of the sector's output. -/
  share : α
  /-- The share weight in use, after any recalibration. -/
  shareWeight : α
  /-- Whether the capacity limit binds. -/
  capacityLimited : Bool
  /-- Whether the share was calibrated to data. -/
  calibrated : Bool
  /-- The factor by which the fixed outputs are scaled. -/
  fixedSupplyScale : α
  /-- The average cost of the technologies. -/
  price : α
  /-- The average price of the fuels. -/
  fuelPrice : α
  /-- The fuel consumed. -/
  input : α
  output : α
  emissions : α
  carbonTaxPaid : α

/-- A subsector over the `n` periods of a model. -/
structure Subsector (n : Nat) (α : Type) where
  id : SubsectorId
  regionId : RegionId
  sectorId : SectorId
  technologies : List (Technology n α)
  /-- The share weight that each calculation of a period starts from. -/
  baseShareWeight : Series n α
  parameters : Series n (SubsectorParameters α)
  results : Series n (SubsectorResult α)

variable {n : Nat} {α : Type}

/-- A subsector without a capacity limit or a fixed share. -/
def SubsectorParameters.default [Quantity α] : SubsectorParameters α where
  anchored := false
  logitExponent := defaultLogitExponent
  capacityLimit := 1
  fixedShare := none

/-- A period that was not calculated yet. -/
def SubsectorResult.initial [Quantity α] : SubsectorResult α where
  share := 0
  shareWeight := 1
  capacityLimited := false
  calibrated := false
  fixedSupplyScale := 1
  price := 0
  fuelPrice := 0
  input := 0
  output := 0
  emissions := 0
  carbonTaxPaid := 0

/-- The average cost and the average fuel price of technologies under given weights. Weights that do
not sum to something positive count as equal. There is nothing to average without technologies. -/
def weightedCosts [Quantity α] (technologies : List (Technology n α)) (weights : List α)
    (p : Fin n) : α × α :=
  let total := Quantity.total weights
  if technologies.isEmpty then (0, 0)
  else if total ≤ 0 then
    let count := Quantity.whole technologies.length
    (Quantity.total (technologies.map fun t => t.results[p].cost) / count,
      Quantity.total (technologies.map fun t => t.results[p].fuelPrice) / count)
  else
    (Quantity.total (List.zipWith (fun t w => t.results[p].cost * w / total) technologies weights),
      Quantity.total
        (List.zipWith (fun t w => t.results[p].fuelPrice * w / total) technologies weights))

/-- Hands values to the technologies that are not fixed, in their order, and leaves the fixed ones
as they are. -/
def overVariable {β : Type} (p : Fin n) (f : Technology n α → β → Technology n α) :
    List (Technology n α) → List β → List (Technology n α)
  | t :: ts, b :: bs =>
    if t.isFixed p then t :: overVariable p f ts (b :: bs) else f t b :: overVariable p f ts bs
  | ts, [] => ts
  | [], _ => []

namespace Subsector

/-- A subsector with default parameters and no technologies. -/
def new [Quantity α] (n : Nat) (path : SubsectorPath) : Subsector n α where
  id := path.subsector
  regionId := path.region
  sectorId := path.sector
  technologies := []
  baseShareWeight := Series.const n 1
  parameters := Series.const n .default
  results := Series.const n .initial

/-- Where the subsector is. -/
def path (s : Subsector n α) : SubsectorPath :=
  ⟨s.regionId, s.sectorId, s.id⟩

/-- Where a technology of the subsector is. -/
def technologyPath (s : Subsector n α) (t : Technology n α) : TechnologyPath :=
  ⟨s.regionId, s.sectorId, s.id, t.id⟩

/-- Changes what is calculated for a period. -/
def update (s : Subsector n α) (p : Fin n) (f : SubsectorResult α → SubsectorResult α) :
    Subsector n α :=
  { s with results := s.results.modify p f }

/-- Changes every technology. -/
def mapTechnologies (s : Subsector n α) (f : Technology n α → Technology n α) : Subsector n α :=
  { s with technologies := s.technologies.map f }

/-- The technologies whose output is not fixed. -/
def variableTechnologies (s : Subsector n α) (p : Fin n) : List (Technology n α) :=
  s.technologies.filter fun t => !t.isFixed p

/-- Whether there are technologies, and all of them have a fixed output. -/
def isAllFixed (s : Subsector n α) (p : Fin n) : Bool :=
  !s.technologies.isEmpty && s.technologies.all (·.isFixed p)

/-- Whether calibration data determine the output: there are technologies whose output is not fixed,
and all of them have calibration data. -/
def isCalibratable (s : Subsector n α) (p : Fin n) : Bool :=
  !(s.variableTechnologies p).isEmpty && (s.variableTechnologies p).all (·.isCalibrated p)

/-- Sets the share of the sector's output. -/
def setShare (s : Subsector n α) (p : Fin n) (share : α) : Subsector n α :=
  s.update p fun r => { r with share := share }

/-- Takes up a share weight. -/
def setShareWeight (s : Subsector n α) (p : Fin n) (weight : α) : Subsector n α :=
  s.update p fun r => { r with shareWeight := weight }

/-- Notes whether the capacity limit binds. -/
def setCapacityLimited (s : Subsector n α) (p : Fin n) (limited : Bool) : Subsector n α :=
  s.update p fun r => { r with capacityLimited := limited }

/-- Notes whether the share was calibrated to data. -/
def setCalibrated (s : Subsector n α) (p : Fin n) (calibrated : Bool) : Subsector n α :=
  s.update p fun r => { r with calibrated := calibrated }

/-- Sets the carbon tax of every technology. -/
def applyCarbonTax (s : Subsector n α) (p : Fin n) (tax : α) : Subsector n α :=
  s.mapTechnologies (·.setCarbonTax p tax)

variable [Quantity α]

/-- Scales the fixed outputs once more. -/
def scaleFixedSupply (s : Subsector n α) (p : Fin n) (factor : α) : Subsector n α :=
  s.update p fun r => { r with fixedSupplyScale := r.fixedSupplyScale * factor }

/-- The sum of the fixed outputs, as they are scaled. -/
def fixedSupply (s : Subsector n α) (p : Fin n) : α :=
  Quantity.total (s.technologies.filterMap fun t => t.parameters[p].fixedOutput)
    * s.results[p].fixedSupplyScale

/-- The sum of the calibration outputs of the technologies that are not fixed. -/
def calibrationOutput (s : Subsector n α) (p : Fin n) : α :=
  Quantity.total
    ((s.variableTechnologies p).filterMap fun t => t.parameters[p].calibrationOutput)

/-- The output that calibration data and fixed supply determine, if they do. -/
def calibrationTarget (s : Subsector n α) (p : Fin n) : Option α :=
  if s.isCalibratable p then some (s.calibrationOutput p + s.fixedSupply p) else none

/-- Calculates the cost of every technology from the prices of the fuels. The fixed outputs are no
longer scaled. -/
def calculateCosts (s : Subsector n α) (p : Fin n) (prices : GoodTable α) : Run α (Subsector n α) :=
  let s := s.update p fun r => { r with fixedSupplyScale := 1 }
  let cost (t : Technology n α) : Run α (Technology n α) :=
    match t.fuel with
    | none => .ok (t.calculateCost p 0)
    | some fuel =>
      match GoodTable.amount? prices fuel p with
      | some price => .ok (t.calculateCost p price)
      | none => .fail t (.missingPrice fuel p (s.technologyPath t))
  (Run.each cost s.technologies).map fun technologies => { s with technologies }

/-- Shares out the variable output between the technologies that are not fixed, with their base
share weights. Fixed technologies have a share of zero. -/
def shareTechnologies (s : Subsector n α) (p : Fin n) : Run α (Subsector n α) :=
  match allocate ((s.variableTechnologies p).map (·.contender p)) with
  | .error e => .fail s (.within (.sharingTechnologies s.path) (.allocation e))
  | .ok allocation =>
    let reset := s.technologies.map fun t => (t.resetShareWeight p).setShare p 0
    let shared := overVariable p (fun t share => t.setShare p share) reset allocation.shares
    let log := allocation.fallback.toList.map (.fallbackUsed (.technologies s.path) p ·)
    ⟨{ s with technologies := shared }, log, none⟩

/-- Sets the price to the average of the technologies' costs, weighted by their shares, or by their
fixed outputs if all of them are fixed. -/
def calculatePrice (s : Subsector n α) (p : Fin n) : Subsector n α :=
  let allFixed := s.isAllFixed p
  let weights := s.technologies.map fun t =>
    if allFixed then t.parameters[p].fixedOutput.getD 0 else t.results[p].share
  let averages := weightedCosts s.technologies weights p
  s.update p fun r => { r with price := averages.1, fuelPrice := averages.2 }

omit [Quantity α] in
/-- The subsector as a contender in its sector, with its base share weight. -/
def contender (s : Subsector n α) (p : Fin n) : Contender α where
  shareWeight := s.baseShareWeight[p]
  price := s.results[p].price
  logitExponent := s.parameters[p].logitExponent
  capacityLimit := s.parameters[p].capacityLimit
  fixedShare := s.parameters[p].fixedShare

/-- Recalibrates the share weights of the technologies that are not fixed, so that those with
calibration data produce them out of a given variable output. -/
def recalibrateTechnologies (s : Subsector n α) (p : Fin n) (variableOutput : α) :
    Run α (Subsector n α) :=
  let choice := s.variableTechnologies p
  if variableOutput ≤ 0 || !choice.any (·.isCalibrated p) then .ok s
  else
    let aim (t : Technology n α) : Aim α :=
      ⟨t.contender p, t.parameters[p].calibrationOutput.map fun target =>
        Quantity.smaller (target / variableOutput) 1⟩
    let recalibration := recalibrate (choice.map aim)
    match recalibration.outcome with
    | .error e => .fail s (.within (.recalibratingTechnologies s.path) (.allocation e))
    | .ok allocation =>
      let take (t : Technology n α) (x : Contender α × α) : Technology n α :=
        let t := if t.isCalibrated p then t.setCalibratedShareWeight p x.1.shareWeight else t
        t.setShare p x.2
      .ok { s with
        technologies :=
          overVariable p take s.technologies (recalibration.contenders.zip allocation.shares) }

/-- Sums up the emissions of the technologies and the carbon tax they pay. -/
def calculateEmissions (s : Subsector n α) (p : Fin n) : Subsector n α :=
  s.update p fun r =>
    { r with
      emissions := Quantity.total (s.technologies.map fun t => t.results[p].emissions)
      carbonTaxPaid := Quantity.total (s.technologies.map fun t => t.results[p].carbonTaxPaid) }

/-- Gives every technology its output: the fixed ones their scaled fixed output, the others their
share of the variable output. -/
def produce (s : Subsector n α) (p : Fin n) (variableOutput : α) : Subsector n α :=
  let scale := s.results[p].fixedSupplyScale
  s.mapTechnologies fun t =>
    match t.parameters[p].fixedOutput with
    | some fixed => t.setOutput p (fixed * scale)
    | none => t.setOutput p (t.results[p].share * variableOutput)

/-- Adds up what the technologies produce. If anything is produced, the price becomes the average
cost of what is produced, and the shares are those of the whole output. -/
def takeStock (s : Subsector n α) (p : Fin n) (output : α) : Subsector n α :=
  let input := Quantity.total (s.technologies.map fun t => t.results[p].input)
  let s := (s.update p fun r => { r with output := output, input := input }).calculateEmissions p
  if 0 < output then
    let averages :=
      weightedCosts s.technologies (s.technologies.map fun t => t.results[p].output) p
    let s := s.update p fun r => { r with price := averages.1, fuelPrice := averages.2 }
    s.mapTechnologies fun t => t.setShare p (t.results[p].output / output)
  else s

/-- Produces an output with fixed supply as it is scaled, and the rest from the technologies that
are not fixed. -/
def serve (s : Subsector n α) (p : Fin n) (output : α) (calibrate : Bool) :
    Run α (Subsector n α) :=
  let variableOutput := Quantity.larger (output - s.fixedSupply p) 0
  let ready := if calibrate then s.recalibrateTechnologies p variableOutput else .ok s
  ready.andThen fun s => .ok ((s.produce p variableOutput).takeStock p output)

/-- When calibrating, scales fixed supply to what the calibrated technologies leave of the output,
provided that calibration data determine the output. -/
def fitFixedSupply (s : Subsector n α) (p : Fin n) (output : α) (calibrate : Bool) :
    Subsector n α :=
  if calibrate && s.isCalibratable p then
    s.scaleFixedSupply p (fixedSupplyScaleFactor output (s.calibrationOutput p) (s.fixedSupply p))
  else s

/-- Sets the output and distributes it. Fixed technologies supply their fixed output first; it is
scaled down to the output if it is larger, and scaled to it if there is nobody else. -/
def setOutput (s : Subsector n α) (p : Fin n) (output : α) (calibrate : Bool) :
    Run α (Subsector n α) :=
  if !(0 ≤ output) then .fail s (.negativeOutput output s.path)
  else
    let s := s.fitFixedSupply p output calibrate
    let hasChoice := s.technologies.any fun t => !t.isFixed p
    let fixed := s.fixedSupply p
    if fixed > output || (!hasChoice && 0 < fixed) then
      (s.scaleFixedSupply p (output / fixed)).serve p output calibrate
    else if hasChoice || output ≤ 0 then s.serve p output calibrate
    else .fail s (.unservedOutput output s.path)

/-- The technologies that miss their calibration output, as events, in their order. -/
def miscalibrations (s : Subsector n α) (p : Fin n) (accuracy : α) : List (Event α) :=
  s.technologies.filterMap fun t =>
    t.parameters[p].calibrationOutput.bind fun target =>
      let output := t.results[p].output
      if isWithinAccuracy output target accuracy then none
      else some (.technologyNotCalibrated (s.technologyPath t) p output target)

/-- Sets the output of a period that is given by its number. A negative output is refused in any
period, known or not. -/
def setOutputIn (s : Subsector n α) (period : Nat) (output : α) (calibrate : Bool) :
    Run α (Subsector n α) :=
  if !(0 ≤ output) then .fail s (.negativeOutput output s.path)
  else .ofPeriod s (Series.period? n period) fun p => s.setOutput p output calibrate

/-- The technologies that miss their calibration output in a period that is given by its number.
Without technologies there are none in any period, known or not. -/
def miscalibrationsIn? (s : Subsector n α) (period : Nat) (accuracy : α) :
    Option (List (Event α)) :=
  if s.technologies.isEmpty then some []
  else (Series.period? n period).map (s.miscalibrations · accuracy)

omit [Quantity α] in
/-- The periods whose base share weights are not to be changed: those with a weight given explicitly
and those whose output calibration data determine. -/
def anchors (s : Subsector n α) : Series n Bool :=
  Series.ofFn fun p => s.parameters[p].anchored || s.isCalibratable p

/-- Carries recalibrated share weights of a period forward to later periods. -/
def carryForward (s : Subsector n α) (c : Calendar n) (p : Fin n) : Subsector n α :=
  let s :=
    if s.results[p].calibrated then
      { s with
        baseShareWeight := s.baseShareWeight.carryFrom c p s.results[p].shareWeight s.anchors }
    else s
  s.mapTechnologies (·.carryForward c p)

end Subsector

end NestedLogit
