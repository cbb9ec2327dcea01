import NestedLogit.Region

/-!
# Rows of a model

A model is given by tables. The rows of each table say what there is and which regions it is in, or
give values for a year. Values that a row does not give are absent.
-/

namespace NestedLogit

/-- A region. -/
structure RegionRow where
  id : RegionId
  description : String
  kind : RegionKind

/-- A sector in some regions. -/
structure SectorRow where
  id : SectorId
  regions : String

/-- A subsector of a sector in some regions. -/
structure SubsectorRow where
  id : SubsectorId
  sector : SectorId
  regions : String

/-- A technology of a subsector in some regions. -/
structure TechnologyRow where
  id : TechnologyId
  subsector : SubsectorId
  sector : SectorId
  regions : String
  fuel : Option GoodId

/-- Parameters of a subsector for a year. -/
structure SubsectorParameterRow (α : Type) where
  subsector : SubsectorId
  sector : SectorId
  regions : String
  year : Nat
  shareWeight : Option α
  logitExponent : Option α
  capacityLimit : Option α
  fixedShare : Option α

/-- Parameters of a technology for a year. -/
structure TechnologyParameterRow (α : Type) where
  technology : TechnologyId
  subsector : SubsectorId
  sector : SectorId
  regions : String
  year : Nat
  shareWeight : Option α
  logitExponent : Option α
  nonEnergyCost : Option α
  efficiency : Option α
  emissionsCoefficient : Option α
  fixedOutput : Option α
  calibrationOutput : Option α

/-- The final demand for the good of a sector in a year. -/
structure DemandRow (α : Type) where
  region : RegionId
  sector : SectorId
  year : Nat
  demand : α

/-- The price of a good in a year. -/
structure PriceRow (α : Type) where
  region : RegionId
  good : GoodId
  year : Nat
  price : α

/-- The carbon tax of a policy in a year. -/
structure CarbonTaxRow (α : Type) where
  policy : String
  regions : String
  year : Nat
  tax : α

end NestedLogit
