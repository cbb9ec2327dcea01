import NestedLogit.Model.Sectors

/-!
# Subsectors from rows

A subsector belongs to a sector that each of its regions has. Its share weights are given for some
years and interpolated; its logit exponents and capacity limits are carried forward; a fixed share
applies in the year it is given for and is at most the capacity limit.
-/

namespace NestedLogit

variable {α : Type} {n : Nat} [Quantity α]

/-- Subsectors by their place, in the order of rows. -/
abbrev SubsectorTable (n : Nat) (α : Type) := OrderedMap SubsectorPath (Subsector n α)

/-- The subsectors that rows stand for. -/
def Subsector.ofRows (regions : List RegionId) (sectors : SectorTable n α) :
    List SubsectorRow → Except (RowError α) (SubsectorTable n α) :=
  OrderedMap.insertRows keys entry .duplicateSubsector .empty
where
  /-- The places of the subsectors that a row stands for. -/
  keys (row : SubsectorRow) : Except (RowError α) (List SubsectorPath) := do
    return (← rowRegions regions row.id.name row.regions).map (⟨·, row.sector, row.id⟩)
  /-- A subsector whose sector is there. -/
  entry (_ : SubsectorRow) (path : SubsectorPath) : Except (RowError α) (Subsector n α) :=
    if sectors.contains path.parent then .ok (.new n path) else .error (.sectorAbsent path)

namespace SubsectorParameterRow

/-- Checks the values of a row. -/
def check (row : SubsectorParameterRow α) : Except ParameterError Unit := do
  checkAmount "share_weight" row.shareWeight
  checkExponent row.logitExponent

/-- The share weights and the other parameters that the rows of one subsector add up to. -/
def expand (c : Calendar n) (rows : Sparse (SubsectorParameterRow α)) :
    Except SparseError (Series n α × Series n (SubsectorParameters α)) := do
  let (shareWeights, anchored) ← (rows.filterMap (·.shareWeight)).interpolate c 1
  let logitExponents ← (rows.filterMap (·.logitExponent)).carryForward c defaultLogitExponent
  let capacityLimits ← (rows.filterMap (·.capacityLimit)).carryForward c 1
  let fixedShares ← (rows.filterMap (·.fixedShare)).perPeriod n
  let parameters := Series.ofFn fun p =>
    { anchored := anchored[p]
      logitExponent := logitExponents[p]
      capacityLimit := capacityLimits[p]
      fixedShare := fixedShares[p] }
  return (shareWeights, parameters)

/-- The first fixed share that is larger than the capacity limit of its period. -/
def excess? (c : Calendar n) (path : SubsectorPath)
    (parameters : Series n (SubsectorParameters α)) : Option (RowError α) :=
  (List.finRange n).findSome? fun p =>
    let limit := parameters[p].capacityLimit
    parameters[p].fixedShare.bind fun share =>
      if share ≤ limit then none else some (.fixedShareAboveLimit path share limit (c.year p))

/-- The parameters that rows give to the subsectors they are for. -/
def series (c : Calendar n) (regions : List RegionId) (subsectors : SubsectorTable n α) :
    List (SubsectorParameterRow α) →
      Except (RowError α) (List (SubsectorPath × Series n α × Series n (SubsectorParameters α))) :=
  groupRows place .duplicateSubsectorYear make
where
  /-- A row under each of the subsectors it is for. -/
  place (row : SubsectorParameterRow α) :
      Except (RowError α) (List (KeyedRow SubsectorPath (SubsectorParameterRow α))) := do
    (check row).mapError (.subsectorParameters row.subsector)
    let period ← rowPeriod c row.year
    let ids ← rowRegions regions row.subsector.name row.regions
    ids.mapM fun region => do
      let path : SubsectorPath := ⟨region, row.sector, row.subsector⟩
      if subsectors.contains path then return ⟨path, period, row⟩
      else throw (.unknownSubsector path)
  /-- The parameters of one subsector. -/
  make (path : SubsectorPath) (rows : Sparse (SubsectorParameterRow α)) :
      Except (RowError α) (Series n α × Series n (SubsectorParameters α)) := do
    let x ← (expand c rows).mapError (.subsectorSeries path)
    match excess? c path x.2 with
    | some e => throw e
    | none => return x

end SubsectorParameterRow

/-- Gives subsectors the parameters of rows. -/
def SubsectorTable.withParameters (subsectors : SubsectorTable n α) (c : Calendar n)
    (regions : List RegionId) (rows : List (SubsectorParameterRow α)) :
    Except (RowError α) (SubsectorTable n α) := do
  let parameters ← SubsectorParameterRow.series c regions subsectors rows
  return OrderedMap.update subsectors
    (fun s x => { s with baseShareWeight := x.1, parameters := x.2 }) parameters

end NestedLogit
