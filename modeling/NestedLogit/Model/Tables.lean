import NestedLogit.Model.CarbonTaxes
import NestedLogit.Model.Columns
import NestedLogit.Model.Parameters
import NestedLogit.Model.Prices
import NestedLogit.Model.Technologies
import NestedLogit.World

/-!
# Models from tables

A model is loaded from its parameters and the rows of its tables. Tables are read one after another;
the first that is not accepted ends the loading.

## Main definitions

- `Tables`: the parameters and tables of a model, each of which may have failed to be read.
- `Tables.load`: the model, or why there is none.
- `Tables.ofFiles`: the tables of files.
-/

namespace NestedLogit

/-- The files that a model is given by. -/
inductive ModelFile where
  | parameters
  | regions
  | sectors
  | subsectors
  | subsectorParameters
  | technologies
  | technologyParameters
  | demand
  | marketPrices
  | carbonTax
  deriving DecidableEq, Repr

/-- The name of a file within the model's folder. -/
def ModelFile.name : ModelFile → String
  | .parameters => "model.toml"
  | .regions => "regions.csv"
  | .sectors => "sectors.csv"
  | .subsectors => "subsectors.csv"
  | .subsectorParameters => "subsector_parameters.csv"
  | .technologies => "technologies.csv"
  | .technologyParameters => "technology_parameters.csv"
  | .demand => "demand.csv"
  | .marketPrices => "market_prices.csv"
  | .carbonTax => "carbon_tax.csv"

/-- Why a model cannot be loaded. -/
inductive LoadError (α : Type) where
  | parameters (cause : ParametersError)
  | table (file : ModelFile) (cause : Table.TableError)
  /-- A table that has to have rows has none. -/
  | noRows (file : ModelFile)
  | rows (file : ModelFile) (cause : RowError α)
  | region (cause : RegionError)
  | duplicateRegion (cause : DuplicateRegion)

/-- The links of the message for a model that cannot be loaded, with values written and files named
in a given way. -/
def LoadError.chain {α : Type} (amount : α → String) (path : ModelFile → String) :
    LoadError α → List String
  | .parameters cause => [s!"Error reading {path .parameters}", cause.message]
  | .table file cause => [s!"Error reading {path file}", cause.message]
  | .noRows file => [s!"CSV file {path file} cannot be empty"]
  | .rows file cause => s!"Error reading {path file}" :: cause.chain amount
  | .region cause => cause.chain
  | .duplicateRegion cause => [cause.message]

/-- A model: its parameters, its world and the policies for it. -/
structure Model (α : Type) where
  parameters : Parameters α
  world : World parameters.periods α
  policies : List (Policy parameters.periods α)

/-- The parameters of a model and the rows of its tables, as far as they could be read. -/
structure Tables (α : Type) where
  parameters : Except ParametersError (Parameters α)
  regions : Except Table.TableError (List RegionRow)
  sectors : Except Table.TableError (List SectorRow)
  subsectors : Except Table.TableError (List SubsectorRow)
  subsectorParameters : Except Table.TableError (List (SubsectorParameterRow α))
  technologies : Except Table.TableError (List TechnologyRow)
  technologyParameters : Except Table.TableError (List (TechnologyParameterRow α))
  demand : Except Table.TableError (List (DemandRow α))
  marketPrices : Except Table.TableError (List (PriceRow α))
  carbonTax : Except Table.TableError (List (CarbonTaxRow α))

variable {α : Type} {n : Nat}

/-- The technologies of a subsector, in the order of the table. -/
def TechnologyTable.within (technologies : TechnologyTable n α) (path : SubsectorPath) :
    List (Technology n α) :=
  technologies.entries.filterMap fun e => if e.1.parent = path then some e.2 else none

/-- Gives every subsector its technologies. -/
def SubsectorTable.withTechnologies (subsectors : SubsectorTable n α)
    (technologies : TechnologyTable n α) : SubsectorTable n α :=
  OrderedMap.mapValues subsectors fun path s =>
    { s with technologies := TechnologyTable.within technologies path }

/-- The subsectors of a sector, in the order of the table. -/
def SubsectorTable.within (subsectors : SubsectorTable n α) (path : SectorPath) :
    List (Subsector n α) :=
  subsectors.entries.filterMap fun e => if e.1.parent = path then some e.2 else none

/-- Gives every sector its subsectors. -/
def SectorTable.withSubsectors (sectors : SectorTable n α) (subsectors : SubsectorTable n α) :
    SectorTable n α :=
  OrderedMap.mapValues sectors fun path s =>
    { s with subsectors := SubsectorTable.within subsectors path }

/-- The sectors of a region, in the order of the table. -/
def SectorTable.within (sectors : SectorTable n α) (region : RegionId) : List (Sector n α) :=
  sectors.entries.filterMap fun e => if e.1.region = region then some e.2 else none

/-- The rows of a table that may be empty. -/
def optionalRows {ρ : Type} (file : ModelFile) (rows : Except Table.TableError (List ρ)) :
    Except (LoadError α) (List ρ) :=
  rows.mapError (.table file)

/-- The rows of a table that has to have some. -/
def requiredRows {ρ : Type} (file : ModelFile) (rows : Except Table.TableError (List ρ)) :
    Except (LoadError α) (List ρ) := do
  let rows ← optionalRows file rows
  if rows.isEmpty then throw (.noRows file) else return rows

/-- Says which file rows come from that are not accepted. -/
def inFile {β : Type} (file : ModelFile) (x : Except (RowError α) β) : Except (LoadError α) β :=
  x.mapError (.rows file)

variable [Quantity α]

/-- The region of a row, with its sectors and its prices. -/
def RegionRow.region (row : RegionRow) (sectors : SectorTable n α) (prices : PriceList n α) :
    Except RegionError (Region n α) := do
  let r ← Region.ofSectors row.id row.description row.kind (SectorTable.within sectors row.id)
  return { r with market := { r.market with prices := PriceList.ofRegion prices row.id } }

namespace Tables

/-- The sectors of a model with everything in them. -/
def loadSectors (t : Tables α) (c : Calendar n) (regions : List RegionId) :
    Except (LoadError α) (SectorTable n α) := do
  let rows ← requiredRows .sectors t.sectors
  let sectors : SectorTable n α ← inFile .sectors (Sector.ofRows regions rows)
  let rows ← requiredRows .subsectors t.subsectors
  let subsectors ← inFile .subsectors (Subsector.ofRows regions sectors rows)
  let rows ← optionalRows .subsectorParameters t.subsectorParameters
  let subsectors ← inFile .subsectorParameters
    (SubsectorTable.withParameters subsectors c regions rows)
  let rows ← requiredRows .technologies t.technologies
  let technologies ← inFile .technologies (Technology.ofRows regions subsectors rows)
  let rows ← optionalRows .technologyParameters t.technologyParameters
  let technologies ← inFile .technologyParameters
    (TechnologyTable.withParameters technologies c regions rows)
  let rows ← requiredRows .demand t.demand
  let sectors ← inFile .demand (SectorTable.withDemands sectors c rows)
  return SectorTable.withSubsectors sectors
    (SubsectorTable.withTechnologies subsectors technologies)

/-- The model that tables give, or why there is none. -/
def load (t : Tables α) : Except (LoadError α) (Model α) := do
  let parameters ← t.parameters.mapError .parameters
  let c := parameters.calendar
  let rows ← requiredRows .regions t.regions
  let regionRows ← inFile .regions (RegionRow.index rows)
  let ids := regionRows.keys
  let sectors ← t.loadSectors c ids
  let rows ← requiredRows .marketPrices t.marketPrices
  let prices ← inFile .marketPrices (PriceList.ofRows c ids rows)
  let rows ← optionalRows .carbonTax t.carbonTax
  let policies ← inFile .carbonTax (Policy.ofRows c ids rows)
  let regions ← (regionRows.values.mapM (RegionRow.region · sectors prices)).mapError .region
  let world ← (World.ofRegions c regions).mapError .duplicateRegion
  return ⟨parameters, world, policies⟩

/-- The tables of files. -/
def ofFiles (file : ModelFile → Except AccessError String) : Tables Float where
  parameters := Parameters.ofFileText (file .parameters)
  regions := Columns.regions.decodeFile (file .regions)
  sectors := Columns.sectors.decodeFile (file .sectors)
  subsectors := Columns.subsectors.decodeFile (file .subsectors)
  subsectorParameters :=
    Columns.subsectorParameters.decodeOptionalFile (file .subsectorParameters)
  technologies := Columns.technologies.decodeFile (file .technologies)
  technologyParameters :=
    Columns.technologyParameters.decodeOptionalFile (file .technologyParameters)
  demand := Columns.demand.decodeFile (file .demand)
  marketPrices := Columns.marketPrices.decodeFile (file .marketPrices)
  carbonTax := Columns.carbonTax.decodeOptionalFile (file .carbonTax)

end Tables

end NestedLogit
