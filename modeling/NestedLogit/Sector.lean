import NestedLogit.Subsector

/-!
# Sectors

A sector supplies one good of a region and shares out the demand for it between its subsectors, in
the same way in which a subsector shares out its output between technologies.
-/

namespace NestedLogit

/-- What is calculated for a sector in one period. -/
structure SectorResult (α : Type) where
  /-- The demand for the sector's good. -/
  demand : α
  /-- The average price of what is produced. -/
  price : α
  output : α

/-- A sector over the `n` periods of a model. -/
structure Sector (n : Nat) (α : Type) where
  id : SectorId
  regionId : RegionId
  /-- The good that is produced. -/
  good : GoodId
  subsectors : List (Subsector n α)
  /-- The demand for the good from outside the model. -/
  finalDemand : Series n α
  results : Series n (SectorResult α)

variable {n : Nat} {α : Type}

/-- A period that was not calculated yet. -/
def SectorResult.initial [Quantity α] : SectorResult α where
  demand := 0
  price := 0
  output := 0

namespace Sector

/-- A sector without subsectors and final demand, which produces the good of its own name. -/
def new [Quantity α] (n : Nat) (path : SectorPath) : Sector n α where
  id := path.sector
  regionId := path.region
  good := ⟨path.sector.name⟩
  subsectors := []
  finalDemand := Series.const n 0
  results := Series.const n .initial

/-- Where the sector is. -/
def path (s : Sector n α) : SectorPath :=
  ⟨s.regionId, s.id⟩

/-- Changes what is calculated for a period. -/
def update (s : Sector n α) (p : Fin n) (f : SectorResult α → SectorResult α) : Sector n α :=
  { s with results := s.results.modify p f }

/-- Changes every subsector. -/
def mapSubsectors (s : Sector n α) (f : Subsector n α → Subsector n α) : Sector n α :=
  { s with subsectors := s.subsectors.map f }

/-- The technologies of all subsectors. -/
def technologies (s : Sector n α) : List (Technology n α) :=
  s.subsectors.flatMap (·.technologies)

/-- The goods that technologies of the sector consume. -/
def fuels (s : Sector n α) : List GoodId :=
  s.technologies.filterMap (·.fuel)

/-- The goods that technologies consume in a period, with the amounts. -/
def fuelInputs (s : Sector n α) (p : Fin n) : List (GoodId × α) :=
  s.technologies.filterMap fun t => t.fuel.map (·, t.results[p].input)

/-- Sets the carbon tax of every technology. -/
def applyCarbonTax (s : Sector n α) (p : Fin n) (tax : α) : Sector n α :=
  s.mapSubsectors (·.applyCarbonTax p tax)

/-- Sets the demand of a period. -/
def setDemand (s : Sector n α) (p : Fin n) (demand : α) : Sector n α :=
  s.update p fun r => { r with demand := demand }

/-- Gives each subsector what an allocation decided for it: its share, whether its capacity limit
binds, its share weight, and whether it has a calibration target. -/
def award (p : Fin n) (s : Subsector n α) (a : Award α) (contender : Contender α)
    (target : Option α) : Subsector n α :=
  (((s.setShare p a.share).setCapacityLimited p a.capacityLimited).setShareWeight p
    contender.shareWeight).setCalibrated p target.isSome

variable [Quantity α]

/-- The emissions of all subsectors. -/
def emissions (s : Sector n α) (p : Fin n) : α :=
  Quantity.total (s.subsectors.map fun x => x.results[p].emissions)

/-- The fixed supply of the subsectors that have nothing else. -/
def fixedSupply (s : Sector n α) (p : Fin n) : α :=
  Quantity.total ((s.subsectors.filter (·.isAllFixed p)).map (·.fixedSupply p))

/-- The output that calibration targets ask of the subsectors. -/
def calibrationOutput (s : Sector n α) (p : Fin n) : α :=
  Quantity.total (s.subsectors.filterMap (·.calibrationTarget p))

/-- The factor by which the fixed supply of all-fixed subsectors has to be scaled to be consistent
with a demand, if it has to. When calibrating and every subsector is either all-fixed or calibrated,
it fills what the calibrated ones leave. Otherwise it is scaled only if it exceeds the demand, and
this is reported. -/
def fixedSupplyFactor (s : Sector n α) (p : Fin n) (demand : α) (calibrate : Bool) :
    Option (α × List (Event α)) :=
  let fixed := s.fixedSupply p
  if fixed ≤ 0 then none
  else if calibrate && s.subsectors.all fun x => x.isAllFixed p || x.isCalibratable p then
    some (fixedSupplyScaleFactor demand (s.calibrationOutput p) fixed, [])
  else if demand * (1 + Quantity.shareTolerance) < fixed then
    some (demand / fixed, [.fixedSupplyExceedsDemand s.path p fixed demand])
  else none

/-- Scales the fixed supply of all-fixed subsectors to be consistent with a demand. -/
def scaleFixedSupplies (s : Sector n α) (p : Fin n) (demand : α) (calibrate : Bool) :
    Sector n α × List (Event α) :=
  match s.fixedSupplyFactor p demand calibrate with
  | some (factor, log) =>
    (s.mapSubsectors fun x => if x.isAllFixed p then x.scaleFixedSupply p factor else x, log)
  | none => (s, [])

/-- A subsector as a contender for a demand. An all-fixed subsector takes the share of the demand
that its fixed supply covers. -/
def contender (p : Fin n) (demand : α) (s : Subsector n α) : Contender α :=
  let c := s.contender p
  if 0 < demand && s.isAllFixed p then { c with fixedShare := some (s.fixedSupply p / demand) }
  else c

/-- The share of a demand that calibration data ask of a subsector. -/
def targetShare (p : Fin n) (demand : α) (calibrate : Bool) (s : Subsector n α) : Option α :=
  if calibrate && 0 < demand then
    (s.calibrationTarget p).map fun target => Quantity.smaller (target / demand) 1
  else none

/-- The allocation between aims: with recalibration, if any of them has a target. -/
def allocateAims (aims : List (Aim α)) : Recalibration α :=
  if aims.any fun a => a.target.isSome then recalibrate aims
  else ⟨aims.map Aim.contender, allocate (aims.map Aim.contender)⟩

/-- Shares out a demand between the subsectors. -/
def shareSubsectors (s : Sector n α) (p : Fin n) (demand : α) (calibrate : Bool) :
    Run α (Sector n α) :=
  let (s, log) := if 0 < demand then s.scaleFixedSupplies p demand calibrate else (s, [])
  let aims := s.subsectors.map fun x => ⟨contender p demand x, targetShare p demand calibrate x⟩
  let recalibration := allocateAims aims
  match recalibration.outcome with
  | .error e => ⟨s, log, some (.within (.sharingSubsectors s.path) (.allocation e))⟩
  | .ok allocation =>
    let decided := allocation.awards.zip (recalibration.contenders.zip (aims.map Aim.target))
    let subsectors := List.zipWith (fun x d => award p x d.1 d.2.1 d.2.2) s.subsectors decided
    let fallback := allocation.fallback.toList.map (.fallbackUsed (.subsectors s.path) p ·)
    ⟨{ s with subsectors }, log ++ fallback, none⟩

/-- Adds up the outputs of the subsectors. The price is their average price, weighted by output, or
by share if nothing is produced. -/
def takeStock (s : Sector n α) (p : Fin n) : Sector n α :=
  let output := Quantity.total (s.subsectors.map fun x => x.results[p].output)
  let price :=
    if 0 < output then
      Quantity.total (s.subsectors.map fun x => x.results[p].price * x.results[p].output) / output
    else Quantity.total (s.subsectors.map fun x => x.results[p].price * x.results[p].share)
  s.update p fun r => { r with output := output, price := price }

/-- Calculates the costs, technology shares and prices of the subsectors. -/
def prepareSubsectors (s : Sector n α) (p : Fin n) (prices : GoodTable α) : Run α (Sector n α) :=
  let prepare (x : Subsector n α) : Run α (Subsector n α) :=
    ((x.calculateCosts p prices).andThen (·.shareTechnologies p)).andThen
      fun x => .ok (x.calculatePrice p)
  (Run.each prepare s.subsectors).map fun subsectors => { s with subsectors }

/-- Gives every subsector its share of an output to produce. -/
def produce (s : Sector n α) (p : Fin n) (output : α) (calibrate : Bool) : Run α (Sector n α) :=
  let one (x : Subsector n α) : Run α (Subsector n α) :=
    x.setOutput p (x.results[p].share * output) calibrate
  (Run.each one s.subsectors).map fun subsectors => { s with subsectors }

/-- Calculates a period for a demand. -/
def calculate (s : Sector n α) (p : Fin n) (demand : α) (prices : GoodTable α)
    (calibrate : Bool) : Run α (Sector n α) :=
  let s := s.setDemand p demand
  (((s.prepareSubsectors p prices).andThen
    (·.shareSubsectors p demand calibrate)).andThen
    (·.produce p (Quantity.larger demand 0) calibrate)).andThen
    fun s => .ok (s.takeStock p)

/-- The technologies that miss their calibration output, as events, in tree order. -/
def miscalibrations (s : Sector n α) (p : Fin n) (accuracy : α) : List (Event α) :=
  s.subsectors.flatMap (·.miscalibrations p accuracy)

/-- The technologies that miss their calibration output in a period that is given by its number.
Without technologies there are none in any period, known or not. -/
def miscalibrationsIn? (s : Sector n α) (period : Nat) (accuracy : α) : Option (List (Event α)) :=
  if s.technologies.isEmpty then some []
  else (Series.period? n period).map (s.miscalibrations · accuracy)

omit [Quantity α] in
/-- The goods that technologies consume in a period that is given by its number. Technologies
without fuels consume nothing in any period, known or not. -/
def fuelInputsIn? (s : Sector n α) (period : Nat) : Option (List (GoodId × α)) :=
  if s.fuels.isEmpty then some [] else (Series.period? n period).map s.fuelInputs

/-- Carries recalibrated share weights of a period forward to later periods. -/
def carryForward (s : Sector n α) (c : Calendar n) (p : Fin n) : Sector n α :=
  s.mapSubsectors (·.carryForward c p)

/-- Carries share weights forward from a period that is given by its number. Without subsectors
there is nothing to carry from any period, known or not. -/
def carryForwardIn? (s : Sector n α) (c : Calendar n) (period : Nat) : Option (Sector n α) :=
  if s.subsectors.isEmpty then some s else (c.period? period).map (s.carryForward c)

end Sector

end NestedLogit
