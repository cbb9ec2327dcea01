import NestedLogit.Table.Records
import NestedLogit.Visit

/-!
# Reports

What is written about a period once it has been calculated: the share of every technology, the
market of every good, how subsectors compare with their calibration targets, and the share weights
that were used.

## Main definitions

- `PeriodReport`: the rows about one period.
- `World.report`: the report on a period of a world.
- `reportTables`: the tables that the reports on several periods make up.
-/

namespace NestedLogit

/-- The share, output and cost of a technology. -/
structure ShareReport (α : Type) where
  year : Nat
  technology : TechnologyPath
  share : α
  output : α
  price : α

/-- The market of a good in a region. -/
structure MarketReport (α : Type) where
  year : Nat
  region : RegionId
  good : GoodId
  price : Option α
  supply : α
  demand : α

/-- The output of a subsector beside its calibration target. -/
structure CalibrationReport (α : Type) where
  year : Nat
  subsector : SubsectorPath
  target : α
  output : α
  calibrated : Bool

/-- A share weight of a subsector, or of one of its technologies. -/
structure ShareWeightReport (α : Type) where
  year : Nat
  subsector : SubsectorPath
  technology : Option TechnologyId
  shareWeight : α

/-- The rows about one period. -/
structure PeriodReport (α : Type) where
  shares : List (ShareReport α)
  markets : List (MarketReport α)
  calibration : List (CalibrationReport α)
  shareWeights : List (ShareWeightReport α)

variable {n : Nat} {α : Type}

/-- The row about a technology. -/
def Technology.shareReport (t : Technology n α) (parent : Subsector n α) (year : Nat) (p : Fin n) :
    ShareReport α :=
  let r := t.results[p]
  ⟨year, parent.technologyPath t, r.share, r.output, r.cost⟩

/-- The row about a technology's share weight. -/
def Technology.shareWeightReport (t : Technology n α) (parent : Subsector n α) (year : Nat)
    (p : Fin n) : ShareWeightReport α :=
  ⟨year, parent.path, some t.id, t.results[p].shareWeight⟩

/-- The row about a subsector's share weight. -/
def Subsector.shareWeightReport (s : Subsector n α) (year : Nat) (p : Fin n) :
    ShareWeightReport α :=
  ⟨year, s.path, none, s.results[p].shareWeight⟩

/-- The goods of a market in a period, each once, in the order in which they are first seen among
prices, supplies and demands. -/
def Market.goods (m : Market α) (period : Nat) : List GoodId :=
  ((GoodTable.inPeriod m.prices period ++ GoodTable.inPeriod m.supplies period
    ++ GoodTable.inPeriod m.demands period).map (·.1)).eraseDups

variable [Quantity α]

/-- The rows about the goods of a region. -/
def Region.marketReports (r : Region n α) (year : Nat) (p : Fin n) : List (MarketReport α) :=
  (r.market.goods p).map fun good =>
    ⟨year, r.id, good, GoodTable.amount? r.market.prices good p,
      (GoodTable.amount? r.market.supplies good p).getD 0,
      (GoodTable.amount? r.market.demands good p).getD 0⟩

/-- The row about a subsector that has a calibration target. -/
def Subsector.calibrationReport? (s : Subsector n α) (year : Nat) (p : Fin n) (accuracy : α) :
    Option (CalibrationReport α) :=
  (s.calibrationTarget p).map fun target =>
    let output := s.results[p].output
    ⟨year, s.path, target, output, isWithinAccuracy output target accuracy⟩

/-- The report on a period. -/
def World.report (w : World n α) (p : Fin n) (accuracy : α) : PeriodReport α :=
  let year := w.calendar.year p
  { shares := w.visits.filterMap fun
      | .technology parent t => some (t.shareReport parent year p)
      | _ => none
    markets := w.visits.flatMap fun
      | .region r => r.marketReports year p
      | _ => []
    calibration := w.visits.filterMap fun
      | .subsector s => s.calibrationReport? year p accuracy
      | _ => none
    shareWeights := w.visits.filterMap fun
      | .subsector s => some (s.shareWeightReport year p)
      | .technology parent t => some (t.shareWeightReport parent year p)
      | _ => none }

/-! ## Tables -/

/-- A table that is written to a file. -/
structure ReportTable where
  file : String
  columns : List String
  rows : List (List String)

/-- The text of a table. Without rows there is no record of columns either. -/
def ReportTable.text (t : ReportTable) : String :=
  if t.rows.isEmpty then ""
  else String.join ((t.columns :: t.rows).map Table.writeRecord)

/-- The cells for the place of a subsector. -/
def SubsectorPath.cells (p : SubsectorPath) : List String :=
  [p.region.name, p.sector.name, p.subsector.name]

omit [Quantity α]

variable (amount : α → String)

/-- The cells of a row about a technology. -/
def ShareReport.cells (r : ShareReport α) : List String :=
  toString r.year :: r.technology.parent.cells
    ++ [r.technology.technology.name, amount r.share, amount r.output, amount r.price]

/-- The cells of a row about a good. The cell of a price that is not set is empty. -/
def MarketReport.cells (r : MarketReport α) : List String :=
  [toString r.year, r.region.name, r.good.name, (r.price.map amount).getD "", amount r.supply,
    amount r.demand]

/-- The cells of a row about a calibration target. -/
def CalibrationReport.cells (r : CalibrationReport α) : List String :=
  toString r.year :: r.subsector.cells
    ++ [amount r.target, amount r.output, if r.calibrated then "true" else "false"]

/-- The cells of a row about a share weight. The cell for the technology is empty in the row of the
subsector itself. -/
def ShareWeightReport.cells (r : ShareWeightReport α) : List String :=
  toString r.year :: r.subsector.cells ++ [(r.technology.map Id.name).getD "", amount r.shareWeight]

/-- The tables of the reports on several periods, with numbers written in a given way. Share weights
are written only on demand. -/
def reportTables (withShareWeights : Bool) (reports : List (PeriodReport α)) : List ReportTable :=
  let shares : ReportTable := {
    file := "shares.csv"
    columns := ["year", "region_id", "sector_id", "subsector_id", "technology_id", "share",
      "output", "price"]
    rows := reports.flatMap fun r => r.shares.map (·.cells amount) }
  let markets : ReportTable := {
    file := "markets.csv"
    columns := ["year", "region_id", "good", "price", "supply", "demand"]
    rows := reports.flatMap fun r => r.markets.map (·.cells amount) }
  let calibration : ReportTable := {
    file := "calibration.csv"
    columns := ["year", "region_id", "sector_id", "subsector_id", "target", "output", "calibrated"]
    rows := reports.flatMap fun r => r.calibration.map (·.cells amount) }
  let shareWeights : ReportTable := {
    file := "debug_share_weights.csv"
    columns := ["year", "region_id", "sector_id", "subsector_id", "technology_id", "share_weight"]
    rows := reports.flatMap fun r => r.shareWeights.map (·.cells amount) }
  [shares, markets, calibration] ++ if withShareWeights then [shareWeights] else []

end NestedLogit
