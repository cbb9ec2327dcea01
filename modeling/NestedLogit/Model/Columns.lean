import NestedLogit.Model.Rows
import NestedLogit.Table.Decoder
import NestedLogit.Text.Blank

/-!
# Columns of a model's tables

The names of the columns of each table, and what their fields hold.
-/

namespace NestedLogit.Columns

open Table Decoder FieldReader

/-- The kind of a region, by its short form in any case. -/
def kind : FieldReader RegionKind := fun s =>
  if Text.sameIgnoringCase s "pe" then .ok .partialEquilibrium
  else if Text.sameIgnoringCase s "ge" then .ok .generalEquilibrium
  else .error (.other
    s!"invalid value: string {Text.quoted s}, expected a valid RegionKind string value")

/-- The columns of regions. -/
def regions : Decoder RegionRow :=
  .mk <$> column "id" id <*> column "description" text <*> column "kind" kind

/-- The columns of sectors. -/
def sectors : Decoder SectorRow :=
  .mk <$> column "id" id <*> column "regions" text

/-- The columns of subsectors. -/
def subsectors : Decoder SubsectorRow :=
  .mk <$> column "id" id <*> column "sector_id" id <*> column "regions" text

/-- The columns of technologies. -/
def technologies : Decoder TechnologyRow :=
  .mk <$> column "id" id <*> column "subsector_id" id <*> column "sector_id" id
    <*> column "regions" text <*> column? "fuel" id

/-- The columns of parameters of subsectors. -/
def subsectorParameters : Decoder (SubsectorParameterRow Float) :=
  .mk <$> column "subsector_id" id <*> column "sector_id" id <*> column "regions" text
    <*> column "year" year <*> column? "share_weight" number <*> column? "logit_exponent" number
    <*> column? "capacity_limit" proportion <*> column? "fixed_share" proportion

/-- The columns of parameters of technologies. -/
def technologyParameters : Decoder (TechnologyParameterRow Float) :=
  .mk <$> column "technology_id" id <*> column "subsector_id" id <*> column "sector_id" id
    <*> column "regions" text <*> column "year" year
    <*> column? "share_weight" number <*> column? "logit_exponent" number
    <*> column? "non_energy_cost" number <*> column? "efficiency" number
    <*> column? "emissions_coefficient" number <*> column? "fixed_output" number
    <*> column? "calibration_output" number

/-- The columns of final demands. -/
def demand : Decoder (DemandRow Float) :=
  .mk <$> column "region_id" id <*> column "sector_id" id <*> column "year" year
    <*> column "demand" number

/-- The columns of prices. -/
def marketPrices : Decoder (PriceRow Float) :=
  .mk <$> column "region_id" id <*> column "good" id <*> column "year" year
    <*> column "price" number

/-- The columns of carbon taxes. -/
def carbonTax : Decoder (CarbonTaxRow Float) :=
  .mk <$> column "policy" text <*> column "regions" text <*> column "year" year
    <*> column "tax" number

end NestedLogit.Columns
