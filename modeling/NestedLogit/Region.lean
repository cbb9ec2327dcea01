import NestedLogit.Sector.Order

/-!
# Regions

A region is an economy of its own, with its sectors and its market. Its sectors are kept in
calculation order: demand is placed on the market by final demand first and then by each sector as
it is calculated, and every sector comes before those that supply its fuels.
-/

namespace NestedLogit

/-- How much of a region's economy is modelled. -/
inductive RegionKind where
  /-- Only the energy system. -/
  | partialEquilibrium
  /-- The wider economy, so that the value of output counts as well. -/
  | generalEquilibrium
  deriving DecidableEq, Repr

/-- A region over the `n` periods of a model. -/
structure Region (n : Nat) (α : Type) where
  id : RegionId
  /-- What the region is, in words. -/
  description : String
  kind : RegionKind
  market : Market α
  /-- The sectors in calculation order. -/
  sectors : List (Sector n α)
  carbonTax : Series n α
  /-- The value of output, which is calculated in a general equilibrium only. -/
  outputValue : Series n α

/-- Why sectors make no region. -/
inductive RegionError where
  | sectorElsewhere (sector : SectorId) (its given : RegionId)
  | duplicateSector (sector : SectorId) (region : RegionId)
  | dependencyCycle (region : RegionId) (cause : DependencyCycle)
  deriving DecidableEq, Repr

/-- The links of the message for sectors that make no region. -/
def RegionError.chain : RegionError → List String
  | .sectorElsewhere sector its given =>
    [s!"Sector {sector} belongs to region {its}, not {given}"]
  | .duplicateSector sector region => [s!"Duplicate sector {sector} in region {region}"]
  | .dependencyCycle region cause => [s!"Invalid region {region}", cause.message]

variable {n : Nat} {α : Type}

namespace Region

/-- Checks that sectors belong to a region and have different names, given the names before them. -/
def checkSectors (id : RegionId) : List SectorId → List (Sector n α) → Except RegionError Unit
  | _, [] => .ok ()
  | seen, s :: rest =>
    if s.regionId ≠ id then .error (.sectorElsewhere s.id s.regionId id)
    else if s.id ∈ seen then .error (.duplicateSector s.id id)
    else checkSectors id (s.id :: seen) rest

/-- The region of some sectors, with an empty market and no carbon tax. -/
def ofSectors [Quantity α] (id : RegionId) (description : String) (kind : RegionKind)
    (sectors : List (Sector n α)) : Except RegionError (Region n α) := do
  checkSectors id [] sectors
  match Sector.order sectors with
  | .ok sectors => .ok {
      id, description, kind, sectors
      market := .empty
      carbonTax := Series.const n 0
      outputValue := Series.const n 0 }
  | .error e => .error (.dependencyCycle id e)

/-- Forgets the calculated market quantities of a period. -/
def clearPeriod (r : Region n α) (p : Fin n) : Region n α :=
  { r with market := r.market.clearPeriod p }

/-- The technologies of all sectors. -/
def technologies (r : Region n α) : List (Technology n α) :=
  r.sectors.flatMap (·.technologies)

variable [Quantity α]

/-- Places the final demands of a period on the market. -/
def placeFinalDemands (sectors : List (Sector n α)) (p : Fin n) (m : Market α) : Market α :=
  sectors.foldl
    (fun m s => { m with demands := GoodTable.add m.demands s.good p s.finalDemand[p] }) m

/-- Places the fuel consumption and the output of a calculated sector on the market. -/
def placeSector (s : Sector n α) (p : Fin n) (m : Market α) : Market α :=
  { m with
    demands := (s.fuelInputs p).foldl (fun t f => GoodTable.add t f.1 p f.2) m.demands
    supplies := GoodTable.add m.supplies s.good p s.results[p].output }

/-- Calculates one sector for the demand that the market shows, and places the result there. -/
def calculateSector (id : RegionId) (tax : α) (calibrate : Bool) (p : Fin n) (m : Market α)
    (s : Sector n α) : Run α (Market α × Sector n α) :=
  let demand := (GoodTable.amount? m.demands s.good p).getD 0
  let r := ((s.applyCarbonTax p tax).calculate p demand m.prices calibrate).within
    (.calculatingSector ⟨id, s.id⟩)
  r.map fun s => (if r.succeeded then placeSector s p m else m, s)

/-- The value of the output of all sectors. -/
def valueOfOutput (sectors : List (Sector n α)) (p : Fin n) : α :=
  Quantity.total (sectors.map fun s => s.results[p].price * s.results[p].output)

/-- Calculates every sector for a period. -/
def calculate (r : Region n α) (p : Fin n) (calibrate : Bool) : Run α (Region n α) :=
  let market := placeFinalDemands r.sectors p (r.market.clearPeriod p)
  let run := Run.eachWith (calculateSector r.id r.carbonTax[p] calibrate p) market r.sectors
  let run := run.map fun x => { r with market := x.1, sectors := x.2 }
  run.andThen fun r =>
    if r.kind = .generalEquilibrium then
      .ok { r with outputValue := r.outputValue.modify p fun _ => valueOfOutput r.sectors p }
    else .ok r

/-- The value of output in a period, for a general equilibrium. -/
def outputValue? (r : Region n α) (p : Fin n) : Option α :=
  if r.kind = .generalEquilibrium then some r.outputValue[p] else none

/-- The emissions of all sectors. -/
def emissions (r : Region n α) (p : Fin n) : α :=
  Quantity.total (r.sectors.map (·.emissions p))

/-- The technologies that miss their calibration output, as events, in tree order. -/
def miscalibrations (r : Region n α) (p : Fin n) (accuracy : α) : List (Event α) :=
  r.sectors.flatMap (·.miscalibrations p accuracy)

/-- Carries recalibrated share weights of a period forward to later periods. -/
def carryForward (r : Region n α) (c : Calendar n) (p : Fin n) : Region n α :=
  { r with sectors := r.sectors.map (·.carryForward c p) }

end Region

end NestedLogit
