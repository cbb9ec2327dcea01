import NestedLogit.Region.Names
import NestedLogit.Series.Grouping

/-!
# Errors in rows

Why the rows of a model's tables are not accepted. A message is a chain of links, the outermost
first.
-/

namespace NestedLogit

/-- What is wrong with the values of a row. -/
inductive ParameterError where
  /-- A parameter is negative or not finite. -/
  | negative (parameter : String)
  /-- A logit exponent is positive or not finite. -/
  | positiveExponent
  /-- An efficiency is not positive or not finite. -/
  | inefficient
  /-- An output is both fixed and given by calibration data. -/
  | fixedAndCalibrated
  deriving DecidableEq, Repr

/-- The message for the values of a row. -/
def ParameterError.message : ParameterError → String
  | .negative parameter => s!"{parameter} must be a finite number greater than or equal to zero"
  | .positiveExponent => "logit_exponent must be a finite number less than or equal to zero"
  | .inefficient => "efficiency must be a finite number greater than zero"
  | .fixedAndCalibrated =>
    "A technology cannot have both a fixed output and a calibration output in the same year"

/-- Why rows are not accepted. -/
inductive RowError (α : Type) where
  | unnamedRegion
  /-- A region has the name that stands for all regions. -/
  | reservedRegion
  | duplicateRegion (region : RegionId)
  /-- A row names no regions, or regions that there are not. -/
  | rowRegions (row : String) (cause : RegionListError)
  /-- A row gives values for a year without a period. -/
  | notAModelYear (cause : NotAModelYear)
  | duplicateSector (cause : DuplicateKey SectorPath)
  /-- A subsector is given for a region that does not have its sector. -/
  | sectorAbsent (subsector : SubsectorPath)
  | duplicateSubsector (cause : DuplicateKey SubsectorPath)
  /-- A technology is given for a region that does not have its subsector. -/
  | subsectorAbsent (technology : TechnologyPath)
  | duplicateTechnology (cause : DuplicateKey TechnologyPath)
  | subsectorParameters (subsector : SubsectorId) (cause : ParameterError)
  | unknownSubsector (subsector : SubsectorPath)
  | duplicateSubsectorYear (cause : DuplicateKey SubsectorPath)
  | subsectorSeries (subsector : SubsectorPath) (cause : SparseError)
  | fixedShareAboveLimit (subsector : SubsectorPath) (share limit : α) (year : Nat)
  | technologyParameters (technology : TechnologyId) (cause : ParameterError)
  | unknownTechnology (technology : TechnologyPath)
  | duplicateTechnologyYear (cause : DuplicateKey TechnologyPath)
  | technologySeries (technology : TechnologyPath) (cause : SparseError)
  | invalidDemand (sector : SectorPath)
  | unknownSector (sector : SectorPath)
  | duplicateDemandYear (cause : DuplicateKey SectorPath)
  | demandSeries (sector : SectorPath) (cause : SparseError)
  | unknownRegion (cause : UnknownId)
  | invalidPrice (region : RegionId) (good : GoodId)
  | duplicatePriceYear (cause : DuplicateKey (RegionId × GoodId))
  | priceSeries (region : RegionId) (good : GoodId) (cause : SparseError)
  | invalidTax (policy : String)
  /-- Two rows of a policy name different regions. -/
  | regionsDiffer (policy : String)
  | duplicateTaxYear (cause : DuplicateKey String)
  | policyRegions (cause : RegionListError)
  /-- Two policies apply to the same region. -/
  | coveredTwice (region : RegionId)
  | taxSeries (policy : String) (cause : SparseError)

/-- The links of the message for rows that are not accepted, with values written in a given way. -/
def RowError.chain {α : Type} (amount : α → String) : RowError α → List String
  | .unnamedRegion => ["Region IDs cannot be empty"]
  | .reservedRegion => ["\"all\" is not a valid region ID"]
  | .duplicateRegion region => [s!"Duplicate region ID {region}"]
  | .rowRegions row cause => [s!"Invalid regions for {row}", cause.message]
  | .notAModelYear cause => [cause.message]
  | .duplicateSector cause => [cause.message]
  | .sectorAbsent path =>
    [s!"Subsector {path.subsector} refers to sector {path.sector}, "
      ++ s!"which is not present in region {path.region}"]
  | .duplicateSubsector cause => [cause.message]
  | .subsectorAbsent path =>
    [s!"Technology {path.technology} refers to subsector {path.subsector} "
      ++ s!"of sector {path.sector}, which is not present in region {path.region}"]
  | .duplicateTechnology cause => [cause.message]
  | .subsectorParameters subsector cause =>
    [s!"Invalid parameters for subsector {subsector}", cause.message]
  | .unknownSubsector path => [s!"Parameters given for unknown subsector {path.text}"]
  | .duplicateSubsectorYear cause => [cause.periodMessage]
  | .subsectorSeries path cause =>
    [s!"Invalid parameters for subsector {path.text}", cause.message]
  | .fixedShareAboveLimit path share limit year =>
    [s!"Invalid parameters for subsector {path.text}",
      s!"fixed_share of {amount share} exceeds capacity_limit of {amount limit} in {year}"]
  | .technologyParameters technology cause =>
    [s!"Invalid parameters for technology {technology}", cause.message]
  | .unknownTechnology path => [s!"Parameters given for unknown technology {path.text}"]
  | .duplicateTechnologyYear cause => [cause.periodMessage]
  | .technologySeries path cause =>
    [s!"Invalid parameters for technology {path.text}", cause.message]
  | .invalidDemand path =>
    [s!"Demand for sector {path.text} must be a finite number greater than or equal to zero"]
  | .unknownSector path => [s!"Demand given for unknown sector {path.text}"]
  | .duplicateDemandYear cause => [cause.periodMessage]
  | .demandSeries path cause => [s!"Invalid demand for sector {path.text}", cause.message]
  | .unknownRegion cause => [cause.message]
  | .invalidPrice region good =>
    [s!"Price for {good} in region {region} must be a finite number "
      ++ "greater than or equal to zero"]
  | .duplicatePriceYear cause => [cause.periodMessage]
  | .priceSeries region good cause =>
    [s!"Invalid prices for {good} in region {region}", cause.message]
  | .invalidTax policy => [s!"Carbon tax for policy {policy} must be a finite number"]
  | .regionsDiffer policy => [s!"Policy {policy} must apply to the same regions in every year"]
  | .duplicateTaxYear cause => [cause.periodMessage]
  | .policyRegions cause => [cause.message]
  | .coveredTwice region => [s!"Region {region} is covered by more than one carbon tax policy"]
  | .taxSeries policy cause => [s!"Invalid carbon tax for policy {policy}", cause.message]

end NestedLogit
