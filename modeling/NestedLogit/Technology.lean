import NestedLogit.Calibration
import NestedLogit.Choice.Contender
import NestedLogit.Id

/-!
# Technologies

The leaves of a model. A technology turns a fuel into output at a cost, which is its non-energy cost
plus the price of its fuel and the tax on its emissions per unit of output.

## Design notes

What is given for a period and what is calculated for it are two records. Every calculation of a
period changes the calculated record of that period and nothing else; only `carryForward` changes
base share weights, and only those of later periods.
-/

namespace NestedLogit

/-- What is given for a technology in one period, apart from its base share weight. -/
structure TechnologyParameters (α : Type) where
  /-- Whether the base share weight is given explicitly. -/
  anchored : Bool
  /-- How strongly the share reacts to the cost. -/
  logitExponent : α
  /-- The cost per unit of output, without fuel and tax. -/
  nonEnergyCost : α
  /-- The output per unit of fuel. -/
  efficiency : α
  /-- The emissions per unit of fuel. -/
  emissionsCoefficient : α
  /-- An output that is imposed from outside. -/
  fixedOutput : Option α
  /-- The output in historical data, which the share weight is calibrated to. -/
  calibrationOutput : Option α

/-- What is calculated for a technology in one period. -/
structure TechnologyResult (α : Type) where
  carbonTax : α
  fuelPrice : α
  cost : α
  /-- The share weight in use, after any recalibration. -/
  shareWeight : α
  /-- Whether the share weight in use was recalibrated. -/
  recalibrated : Bool
  /-- The share of the subsector's output. -/
  share : α
  output : α
  /-- The amount of fuel consumed. -/
  input : α
  emissions : α

/-- A technology over the `n` periods of a model. -/
structure Technology (n : Nat) (α : Type) where
  id : TechnologyId
  /-- The good that is consumed, if any. -/
  fuel : Option GoodId
  /-- The share weight that each calculation of a period starts from. -/
  baseShareWeight : Series n α
  parameters : Series n (TechnologyParameters α)
  results : Series n (TechnologyResult α)

variable {n : Nat} {α : Type}

/-- A technology without costs and emissions, of efficiency one. -/
def TechnologyParameters.default [Quantity α] : TechnologyParameters α where
  anchored := false
  logitExponent := defaultLogitExponent
  nonEnergyCost := 0
  efficiency := 1
  emissionsCoefficient := 0
  fixedOutput := none
  calibrationOutput := none

/-- A period that was not calculated yet. -/
def TechnologyResult.initial [Quantity α] : TechnologyResult α where
  carbonTax := 0
  fuelPrice := 0
  cost := 0
  shareWeight := 1
  recalibrated := false
  share := 0
  output := 0
  input := 0
  emissions := 0

/-- The carbon tax on the emissions of a technology. -/
def TechnologyResult.carbonTaxPaid [Quantity α] (r : TechnologyResult α) : α :=
  r.carbonTax * r.emissions

namespace Technology

/-- A technology with default parameters that was not calculated yet. -/
def new [Quantity α] (n : Nat) (id : TechnologyId) (fuel : Option GoodId) : Technology n α where
  id := id
  fuel := fuel
  baseShareWeight := Series.const n 1
  parameters := Series.const n .default
  results := Series.const n .initial

/-- Changes what is calculated for a period. -/
def update (t : Technology n α) (p : Fin n) (f : TechnologyResult α → TechnologyResult α) :
    Technology n α :=
  { t with results := t.results.modify p f }

/-- Whether the output of a period is imposed from outside. -/
def isFixed (t : Technology n α) (p : Fin n) : Bool :=
  t.parameters[p].fixedOutput.isSome

/-- Whether historical data give the output of a period. -/
def isCalibrated (t : Technology n α) (p : Fin n) : Bool :=
  t.parameters[p].calibrationOutput.isSome

/-- Sets the carbon tax of a period. -/
def setCarbonTax (t : Technology n α) (p : Fin n) (tax : α) : Technology n α :=
  t.update p fun r => { r with carbonTax := tax }

/-- Sets the share of the subsector's output. -/
def setShare (t : Technology n α) (p : Fin n) (share : α) : Technology n α :=
  t.update p fun r => { r with share := share }

/-- Goes back to the base share weight and forgets any recalibration. -/
def resetShareWeight (t : Technology n α) (p : Fin n) : Technology n α :=
  t.update p fun r => { r with shareWeight := t.baseShareWeight[p], recalibrated := false }

/-- Takes up a recalibrated share weight. -/
def setCalibratedShareWeight (t : Technology n α) (p : Fin n) (weight : α) : Technology n α :=
  t.update p fun r => { r with shareWeight := weight, recalibrated := true }

variable [Quantity α]

/-- Calculates the cost of a period from the price of the fuel. -/
def calculateCost (t : Technology n α) (p : Fin n) (fuelPrice : α) : Technology n α :=
  let q := t.parameters[p]
  t.update p fun r =>
    { r with
      fuelPrice := fuelPrice
      cost := q.nonEnergyCost + (fuelPrice + r.carbonTax * q.emissionsCoefficient) / q.efficiency }

/-- The technology as a contender in its subsector, with its base share weight. -/
def contender (t : Technology n α) (p : Fin n) : Contender α :=
  .unlimited t.baseShareWeight[p] t.results[p].cost t.parameters[p].logitExponent

/-- Sets the output of a period, and with it the fuel consumed and the emissions. A technology
without a fuel consumes nothing. -/
def setOutput (t : Technology n α) (p : Fin n) (output : α) : Technology n α :=
  let q := t.parameters[p]
  let input := if t.fuel.isSome then output / q.efficiency else 0
  t.update p fun r =>
    { r with output := output, input := input, emissions := input * q.emissionsCoefficient }

/-- The periods whose base share weights are not to be changed: those with a weight given explicitly
or with calibration data. -/
def anchors (t : Technology n α) : Series n Bool :=
  t.parameters.map fun q => q.anchored || q.calibrationOutput.isSome

/-- Carries the share weight of a period forward to later periods, if it was recalibrated. -/
def carryForward (t : Technology n α) (c : Calendar n) (p : Fin n) : Technology n α :=
  if t.results[p].recalibrated then
    { t with
      baseShareWeight := t.baseShareWeight.carryFrom c p t.results[p].shareWeight t.anchors }
  else t

end Technology

end NestedLogit
