import NestedLogit.Host

/-!
# Example models

The models that come with the program. They can be listed, described, run, or extracted to a folder
to begin a model of one's own with.
-/

namespace NestedLogit.CommandLine

/-- An example model: its name and its files with their texts. -/
structure Example where
  name : String
  files : List (String × String)

/-- A text of lines. -/
def textOfLines (lines : List String) : String :=
  String.join (lines.map (· ++ "\n"))

namespace Example

/-- The name of the file that describes an example. -/
def descriptionFile : String :=
  "README.txt"

namespace Simple

/-- What the example is about. -/
def description : String := textOfLines [
  "A simple two-region model with a heat sector and an electricity sector.",
  "",
  "Heat is supplied by gas and oil boilers or by heat pumps running on electricity. "
    ++ "Electricity is",
  "generated by gas turbines or wind turbines. Boiler outputs in the United Kingdom are "
    ++ "calibrated to",
  "2005 data and a carbon tax is phased in there from 2010."]

/-- Its carbon tax. -/
def carbonTax : String := textOfLines [
  "policy,regions,year,tax",
  "uk_tax,GBR,2005,0.0",
  "uk_tax,GBR,2010,20.0",
  "uk_tax,GBR,2020,50.0"]

/-- Its final demands. -/
def demand : String := textOfLines [
  "region_id,sector_id,year,demand",
  "GBR,heat,2005,80.0",
  "GBR,heat,2010,85.0",
  "GBR,heat,2020,90.0",
  "USA,heat,2005,300.0",
  "USA,heat,2020,330.0"]

/-- Its market prices. -/
def marketPrices : String := textOfLines [
  "region_id,good,year,price",
  "GBR,gas,2005,6.0",
  "GBR,gas,2020,7.0",
  "GBR,oil,2005,8.0",
  "GBR,electricity,2005,12.0",
  "USA,gas,2005,4.0",
  "USA,oil,2005,7.0",
  "USA,electricity,2005,10.0"]

/-- Its parameters. -/
def parameters : String := textOfLines [
  "years = [2005, 2010, 2020]",
  "calibration_accuracy = 1e-3"]

/-- Its regions. -/
def regions : String := textOfLines [
  "id,description,kind",
  "GBR,United Kingdom,pe",
  "USA,United States,ge"]

/-- Its sectors. -/
def sectors : String := textOfLines [
  "id,regions",
  "heat,all",
  "electricity,all"]

/-- The parameters of its subsectors. -/
def subsectorParameters : String := textOfLines [
  "subsector_id,sector_id,regions,year,share_weight,logit_exponent,capacity_limit,fixed_share",
  "boilers,heat,all,2005,1.0,-2.0,,",
  "heat_pumps,heat,all,2005,0.5,-2.0,0.5,",
  "heat_pumps,heat,all,2020,1.0,,,",
  "gas_power,electricity,all,2005,1.0,-3.0,,",
  "wind,electricity,all,2005,1.0,-3.0,,"]

/-- Its subsectors. -/
def subsectors : String := textOfLines [
  "id,sector_id,regions",
  "boilers,heat,all",
  "heat_pumps,heat,all",
  "gas_power,electricity,all",
  "wind,electricity,all"]

/-- Its technologies. -/
def technologies : String := textOfLines [
  "id,subsector_id,sector_id,regions,fuel",
  "gas_boiler,boilers,heat,all,gas",
  "oil_boiler,boilers,heat,all,oil",
  "heat_pump,heat_pumps,heat,all,electricity",
  "gas_turbine,gas_power,electricity,all,gas",
  "wind_turbine,wind,electricity,all,"]

/-- The parameters of its technologies. -/
def technologyParameters : String := textOfLines [
  "technology_id,subsector_id,sector_id,regions,year,share_weight,logit_exponent,"
    ++ "non_energy_cost,efficiency,emissions_coefficient,fixed_output,calibration_output",
  "gas_boiler,boilers,heat,GBR,2005,1.0,-3.0,1.0,0.9,0.056,,45.0",
  "gas_boiler,boilers,heat,USA,2005,1.0,-3.0,1.0,0.9,0.056,,",
  "gas_boiler,boilers,heat,all,2020,,,,0.92,,,",
  "oil_boiler,boilers,heat,GBR,2005,1.0,-3.0,1.2,0.85,0.074,,15.0",
  "oil_boiler,boilers,heat,USA,2005,1.0,-3.0,1.2,0.85,0.074,,",
  "heat_pump,heat_pumps,heat,all,2005,1.0,-3.0,4.0,3.0,0.0,,",
  "gas_turbine,gas_power,electricity,all,2005,1.0,-3.0,2.0,0.5,0.056,,",
  "wind_turbine,wind,electricity,GBR,2005,1.0,-3.0,9.0,1.0,0.0,,",
  "wind_turbine,wind,electricity,USA,2005,1.0,-3.0,9.0,1.0,0.0,5.0,"]

end Simple

/-- Two regions with a heat sector and an electricity sector. -/
def simple : Example where
  name := "simple"
  files := [
    (descriptionFile, Simple.description),
    ("carbon_tax.csv", Simple.carbonTax),
    ("demand.csv", Simple.demand),
    ("market_prices.csv", Simple.marketPrices),
    ("model.toml", Simple.parameters),
    ("regions.csv", Simple.regions),
    ("sectors.csv", Simple.sectors),
    ("subsector_parameters.csv", Simple.subsectorParameters),
    ("subsectors.csv", Simple.subsectors),
    ("technologies.csv", Simple.technologies),
    ("technology_parameters.csv", Simple.technologyParameters)]

/-- All examples. -/
def all : List Example :=
  [simple]

/-- An example by its name, which may be written as a path that leads to nothing else. -/
def find? (name : String) : Option Example :=
  all.find? fun e => Path.isName name e.name

/-- What an example is about. -/
def text? (e : Example) : Option String :=
  e.files.lookup descriptionFile

end Example

end NestedLogit.CommandLine
