import NestedLogit.Model.Placement
import NestedLogit.Model.Rows

/-!
# Regions and sectors from rows

A region has a name of its own, other than the word that stands for all regions. A sector may be in
several regions, and its good has its name. Final demand is given for some years and carried
forward.
-/

namespace NestedLogit

variable {α : Type} {n : Nat}

/-- The rows of regions by name, in order. -/
def RegionRow.index : List RegionRow → Except (RowError α) (OrderedMap RegionId RegionRow) :=
  OrderedMap.insertRows (fun row => .ok [row.id]) entry (fun e => .duplicateRegion e.key) .empty
where
  /-- A row whose name is allowed. -/
  entry (row : RegionRow) (id : RegionId) : Except (RowError α) RegionRow :=
    if id.name.isEmpty then .error .unnamedRegion
    else if isAllRegions id.name then .error .reservedRegion
    else .ok row

variable [Quantity α]

/-- Sectors by their place, in the order of rows. -/
abbrev SectorTable (n : Nat) (α : Type) := OrderedMap SectorPath (Sector n α)

/-- The sectors that rows stand for. -/
def Sector.ofRows (regions : List RegionId) :
    List SectorRow → Except (RowError α) (SectorTable n α) :=
  OrderedMap.insertRows keys (fun _ path => .ok (.new n path)) .duplicateSector .empty
where
  /-- The places of the sectors that a row stands for. -/
  keys (row : SectorRow) : Except (RowError α) (List SectorPath) := do
    return (← rowRegions regions row.id.name row.regions).map (⟨·, row.id⟩)

/-- The final demands that rows give, carried forward, for the sectors they are given for. -/
def DemandRow.series (c : Calendar n) (sectors : SectorTable n α) :
    List (DemandRow α) → Except (RowError α) (List (SectorPath × Series n α)) :=
  groupRows place .duplicateDemandYear
    fun path demands => (demands.carryForward c 0).mapError (.demandSeries path)
where
  /-- A row under the sector it is for. -/
  place (row : DemandRow α) : Except (RowError α) (List (KeyedRow SectorPath α)) :=
    let path : SectorPath := ⟨row.region, row.sector⟩
    if !isAmount row.demand then .error (.invalidDemand path)
    else if !sectors.contains path then .error (.unknownSector path)
    else do return [⟨path, ← rowPeriod c row.year, row.demand⟩]

/-- Gives sectors the final demands of rows. -/
def SectorTable.withDemands (sectors : SectorTable n α) (c : Calendar n)
    (rows : List (DemandRow α)) : Except (RowError α) (SectorTable n α) := do
  let demands ← DemandRow.series c sectors rows
  return OrderedMap.update sectors (fun s demand => { s with finalDemand := demand }) demands

end NestedLogit
