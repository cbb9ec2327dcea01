import NestedLogit.Model.Subsectors

/-!
# Technologies from rows

A technology belongs to a subsector that each of its regions has. Its share weights are given for
some years and interpolated; its costs, efficiency, emissions and logit exponents are carried
forward; fixed outputs and calibration outputs apply in the years they are given for.
-/

namespace NestedLogit

variable {α : Type} {n : Nat} [Quantity α]

/-- Technologies by their place, in the order of rows. -/
abbrev TechnologyTable (n : Nat) (α : Type) := OrderedMap TechnologyPath (Technology n α)

/-- The technologies that rows stand for. -/
def Technology.ofRows (regions : List RegionId) (subsectors : SubsectorTable n α) :
    List TechnologyRow → Except (RowError α) (TechnologyTable n α) :=
  OrderedMap.insertRows keys entry .duplicateTechnology .empty
where
  /-- The places of the technologies that a row stands for. -/
  keys (row : TechnologyRow) : Except (RowError α) (List TechnologyPath) := do
    return (← rowRegions regions row.id.name row.regions).map
      (⟨·, row.sector, row.subsector, row.id⟩)
  /-- A technology whose subsector is there. -/
  entry (row : TechnologyRow) (path : TechnologyPath) :
      Except (RowError α) (Technology n α) :=
    if subsectors.contains path.parent then .ok (.new n row.id row.fuel)
    else .error (.subsectorAbsent path)

namespace TechnologyParameterRow

/-- Checks the values of a row. -/
def check (row : TechnologyParameterRow α) : Except ParameterError Unit := do
  checkAmount "share_weight" row.shareWeight
  checkAmount "non_energy_cost" row.nonEnergyCost
  checkAmount "emissions_coefficient" row.emissionsCoefficient
  checkAmount "fixed_output" row.fixedOutput
  checkAmount "calibration_output" row.calibrationOutput
  checkExponent row.logitExponent
  if !row.efficiency.all fun x => Quantity.isFinite x && 0 < x then throw .inefficient
  if row.fixedOutput.isSome && row.calibrationOutput.isSome then throw .fixedAndCalibrated

/-- The share weights and the other parameters that the rows of one technology add up to. -/
def expand (c : Calendar n) (rows : Sparse (TechnologyParameterRow α)) :
    Except SparseError (Series n α × Series n (TechnologyParameters α)) := do
  let (shareWeights, anchored) ← (rows.filterMap (·.shareWeight)).interpolate c 1
  let logitExponents ← (rows.filterMap (·.logitExponent)).carryForward c defaultLogitExponent
  let nonEnergyCosts ← (rows.filterMap (·.nonEnergyCost)).carryForward c 0
  let efficiencies ← (rows.filterMap (·.efficiency)).carryForward c 1
  let emissions ← (rows.filterMap (·.emissionsCoefficient)).carryForward c 0
  let fixedOutputs ← (rows.filterMap (·.fixedOutput)).perPeriod n
  let calibrationOutputs ← (rows.filterMap (·.calibrationOutput)).perPeriod n
  let parameters := Series.ofFn fun p =>
    { anchored := anchored[p]
      logitExponent := logitExponents[p]
      nonEnergyCost := nonEnergyCosts[p]
      efficiency := efficiencies[p]
      emissionsCoefficient := emissions[p]
      fixedOutput := fixedOutputs[p]
      calibrationOutput := calibrationOutputs[p] }
  return (shareWeights, parameters)

/-- The parameters that rows give to the technologies they are for. -/
def series (c : Calendar n) (regions : List RegionId) (technologies : TechnologyTable n α) :
    List (TechnologyParameterRow α) →
      Except (RowError α)
        (List (TechnologyPath × Series n α × Series n (TechnologyParameters α))) :=
  groupRows place .duplicateTechnologyYear
    fun path rows => (expand c rows).mapError (.technologySeries path)
where
  /-- A row under each of the technologies it is for. -/
  place (row : TechnologyParameterRow α) :
      Except (RowError α) (List (KeyedRow TechnologyPath (TechnologyParameterRow α))) := do
    (check row).mapError (.technologyParameters row.technology)
    let period ← rowPeriod c row.year
    let ids ← rowRegions regions row.technology.name row.regions
    ids.mapM fun region => do
      let path : TechnologyPath := ⟨region, row.sector, row.subsector, row.technology⟩
      if technologies.contains path then return ⟨path, period, row⟩
      else throw (.unknownTechnology path)

end TechnologyParameterRow

/-- Gives technologies the parameters of rows. -/
def TechnologyTable.withParameters (technologies : TechnologyTable n α) (c : Calendar n)
    (regions : List RegionId) (rows : List (TechnologyParameterRow α)) :
    Except (RowError α) (TechnologyTable n α) := do
  let parameters ← TechnologyParameterRow.series c regions technologies rows
  return OrderedMap.update technologies
    (fun t x => { t with baseShareWeight := x.1, parameters := x.2 }) parameters

end NestedLogit
