import NestedLogit.Proofs.Model.Places
import NestedLogit.Proofs.Model.Tree
import NestedLogit.Proofs.World.Selection

/-!
# What a model is loaded from

The rows of regions, sectors, subsectors and technologies lay out the tree of a model. A model that
is loaded has the regions of their rows, in the order of the rows, and a sector, subsector or
technology exactly where a row puts one. Rows that put two things in one place, or something where
its parent is not, give no model.

## Main definitions

- `Layout` — the rows that lay out a model
- `Layout.Misplaced` — that rows do not fit together
- `Tables.Reading`, `Tables.Loaded` — all that is read on the way to the sectors of a model and to
  the model

## Main statements

- `Tables.Reading.fit` — tables that were read fit together
- `Tables.exists_load` — tables that are read give a model unless sectors depend on each other
- `Tables.load_keeps_layout` — no row is lost and none counts twice
-/

namespace NestedLogit

/-- The rows that lay out a model. -/
structure Layout where
  regions : List RegionRow
  sectors : List SectorRow
  subsectors : List SubsectorRow
  technologies : List TechnologyRow

namespace Layout

variable (l : Layout)

/-- The names of the regions, in the order of the rows. -/
def regionIds : List RegionId :=
  l.regions.map (·.id)

/-- The places of sectors that rows stand for. -/
def sectorPaths : List SectorPath :=
  l.sectors.flatMap (·.places l.regionIds)

/-- The places of subsectors that rows stand for. -/
def subsectorPaths : List SubsectorPath :=
  l.subsectors.flatMap (·.places l.regionIds)

/-- The places of technologies that rows stand for. -/
def technologyPaths : List TechnologyPath :=
  l.technologies.flatMap (·.places l.regionIds)

/-- Rows that do not fit together: two of a file stand for the same place, one stands for a place
whose parent no row stands for, or one does not name regions that there are. -/
inductive Misplaced : Prop
  | regionTwice (h : Clash (fun row => [row.id]) l.regions)
  | sectorTwice (h : Clash (SectorRow.places l.regionIds) l.sectors)
  | subsectorTwice (h : Clash (SubsectorRow.places l.regionIds) l.subsectors)
  | technologyTwice (h : Clash (TechnologyRow.places l.regionIds) l.technologies)
  | sectorAbsent {row : SubsectorRow} {path : SubsectorPath} (hrow : row ∈ l.subsectors)
      (hpath : path ∈ row.places l.regionIds) (h : path.parent ∉ l.sectorPaths)
  | subsectorAbsent {row : TechnologyRow} {path : TechnologyPath} (hrow : row ∈ l.technologies)
      (hpath : path ∈ row.places l.regionIds) (h : path.parent ∉ l.subsectorPaths)
  | illegibleSector {row : SectorRow} (hrow : row ∈ l.sectors)
      (h : ¬Naming.Legible row.regions l.regionIds)
  | illegibleSubsector {row : SubsectorRow} (hrow : row ∈ l.subsectors)
      (h : ¬Naming.Legible row.regions l.regionIds)
  | illegibleTechnology {row : TechnologyRow} (hrow : row ∈ l.technologies)
      (h : ¬Naming.Legible row.regions l.regionIds)

end Layout

namespace World

variable {n : Nat} {α : Type} (w : World n α)

/-- The places of the sectors of a world. -/
def sectorPaths : List SectorPath :=
  w.placedSectors.map (·.1)

/-- The places of the subsectors of a world. -/
def subsectorPaths : List SubsectorPath :=
  w.placedSubsectors.map (·.1)

/-- The places of the technologies of a world. -/
def technologyPaths : List TechnologyPath :=
  w.placedTechnologies.map (·.1)

end World

namespace Tables

variable {n : Nat} {α : Type}

/-- The rows that lay out a model could be read. -/
structure HasLayout (t : Tables α) (l : Layout) : Prop where
  regions : t.regions = .ok l.regions
  sectors : t.sectors = .ok l.sectors
  subsectors : t.subsectors = .ok l.subsectors
  technologies : t.technologies = .ok l.technologies

variable [Quantity α] {t : Tables α} {c : Calendar n} {regions : List RegionId}

/-- All that is read on the way to the sectors of a model. -/
structure Reading (t : Tables α) (c : Calendar n) (regions : List RegionId) where
  sectorRows : List SectorRow
  newSectors : SectorTable n α
  subsectorRows : List SubsectorRow
  newSubsectors : SubsectorTable n α
  subsectorParameters : List (SubsectorParameterRow α)
  subsectors : SubsectorTable n α
  technologyRows : List TechnologyRow
  newTechnologies : TechnologyTable n α
  technologyParameters : List (TechnologyParameterRow α)
  technologies : TechnologyTable n α
  demand : List (DemandRow α)
  sectors : SectorTable n α
  sectorRows_eq : t.sectors = .ok sectorRows
  newSectors_eq : Sector.ofRows regions sectorRows = .ok newSectors
  subsectorRows_eq : t.subsectors = .ok subsectorRows
  newSubsectors_eq : Subsector.ofRows regions newSectors subsectorRows = .ok newSubsectors
  subsectorParameters_eq : t.subsectorParameters = .ok subsectorParameters
  subsectors_eq : SubsectorTable.withParameters newSubsectors c regions subsectorParameters
    = .ok subsectors
  technologyRows_eq : t.technologies = .ok technologyRows
  newTechnologies_eq : Technology.ofRows regions subsectors technologyRows = .ok newTechnologies
  technologyParameters_eq : t.technologyParameters = .ok technologyParameters
  technologies_eq : TechnologyTable.withParameters newTechnologies c regions technologyParameters
    = .ok technologies
  demand_eq : t.demand = .ok demand
  sectors_eq : SectorTable.withDemands newSectors c demand = .ok sectors

omit [Quantity α] in
theorem requiredRows_eq_ok {ρ : Type} {file : ModelFile} {x : Except Table.TableError (List ρ)}
    {rows : List ρ} (h : requiredRows (α := α) file x = .ok rows) : x = .ok rows := by
  obtain ⟨read, hread, h⟩ := bind_eq_ok.1 h
  rw [mapError_eq_ok.1 hread]
  split at h
  · cases h
  · cases h
    rfl

theorem exists_reading {sectors : SectorTable n α} (h : t.loadSectors c regions = .ok sectors) :
    ∃ r : Reading t c regions, sectors = tree r.sectors r.subsectors r.technologies := by
  obtain ⟨sectorRows, hsectorRows, h⟩ := bind_eq_ok.1 h
  obtain ⟨newSectors, hnewSectors, h⟩ := bind_eq_ok.1 h
  obtain ⟨subsectorRows, hsubsectorRows, h⟩ := bind_eq_ok.1 h
  obtain ⟨newSubsectors, hnewSubsectors, h⟩ := bind_eq_ok.1 h
  obtain ⟨subsectorParameters, hsubsectorParameters, h⟩ := bind_eq_ok.1 h
  obtain ⟨subsectors, hsubsectors, h⟩ := bind_eq_ok.1 h
  obtain ⟨technologyRows, htechnologyRows, h⟩ := bind_eq_ok.1 h
  obtain ⟨newTechnologies, hnewTechnologies, h⟩ := bind_eq_ok.1 h
  obtain ⟨technologyParameters, htechnologyParameters, h⟩ := bind_eq_ok.1 h
  obtain ⟨technologies, htechnologies, h⟩ := bind_eq_ok.1 h
  obtain ⟨demand, hdemand, h⟩ := bind_eq_ok.1 h
  obtain ⟨sectors', hsectors', h⟩ := bind_eq_ok.1 h
  cases h
  exact ⟨{
    sectorRows, newSectors, subsectorRows, newSubsectors, subsectorParameters, subsectors,
    technologyRows, newTechnologies, technologyParameters, technologies, demand
    sectors := sectors'
    sectorRows_eq := requiredRows_eq_ok hsectorRows
    newSectors_eq := mapError_eq_ok.1 hnewSectors
    subsectorRows_eq := requiredRows_eq_ok hsubsectorRows
    newSubsectors_eq := mapError_eq_ok.1 hnewSubsectors
    subsectorParameters_eq := mapError_eq_ok.1 hsubsectorParameters
    subsectors_eq := mapError_eq_ok.1 hsubsectors
    technologyRows_eq := requiredRows_eq_ok htechnologyRows
    newTechnologies_eq := mapError_eq_ok.1 hnewTechnologies
    technologyParameters_eq := mapError_eq_ok.1 htechnologyParameters
    technologies_eq := mapError_eq_ok.1 htechnologies
    demand_eq := requiredRows_eq_ok hdemand
    sectors_eq := mapError_eq_ok.1 hsectors' }, rfl⟩

namespace Reading

variable (r : Reading t c regions)

theorem sectors_eq_update :
    ∃ demands, DemandRow.series c r.newSectors r.demand = .ok demands ∧
      OrderedMap.update r.newSectors (fun s demand => { s with finalDemand := demand }) demands
        = r.sectors := by
  obtain ⟨demands, hdemands, h⟩ := bind_eq_ok.1 r.sectors_eq
  exact ⟨demands, hdemands, Except.ok.inj h⟩

theorem subsectors_eq_update :
    ∃ parameters,
      SubsectorParameterRow.series c regions r.newSubsectors r.subsectorParameters
        = .ok parameters ∧
        OrderedMap.update r.newSubsectors
          (fun s x => { s with baseShareWeight := x.1, parameters := x.2 }) parameters
          = r.subsectors := by
  obtain ⟨parameters, hparameters, h⟩ := bind_eq_ok.1 r.subsectors_eq
  exact ⟨parameters, hparameters, Except.ok.inj h⟩

theorem technologies_eq_update :
    ∃ parameters,
      TechnologyParameterRow.series c regions r.newTechnologies r.technologyParameters
        = .ok parameters ∧
        OrderedMap.update r.newTechnologies
          (fun t x => { t with baseShareWeight := x.1, parameters := x.2 }) parameters
          = r.technologies := by
  obtain ⟨parameters, hparameters, h⟩ := bind_eq_ok.1 r.technologies_eq
  exact ⟨parameters, hparameters, Except.ok.inj h⟩

theorem keys_sectors : r.sectors.keys = r.newSectors.keys := by
  obtain ⟨demands, -, h⟩ := r.sectors_eq_update
  rw [← h]
  exact OrderedMap.keys_update _ _ _

theorem keys_subsectors : r.subsectors.keys = r.newSubsectors.keys := by
  obtain ⟨parameters, -, h⟩ := r.subsectors_eq_update
  rw [← h]
  exact OrderedMap.keys_update _ _ _

theorem keys_technologies : r.technologies.keys = r.newTechnologies.keys := by
  obtain ⟨parameters, -, h⟩ := r.technologies_eq_update
  rw [← h]
  exact OrderedMap.keys_update _ _ _

/-- Tables that were read fit together. -/
theorem fit : Fit regions r.sectors r.subsectors r.technologies where
  sector := by
    obtain ⟨demands, -, h⟩ := r.sectors_eq_update
    rw [← h]
    apply OrderedMap.forall_mem_update
      (P := fun (k : SectorPath) (s : Sector n α) => s.path = k ∧ k.region ∈ regions)
    · intro e he
      obtain ⟨hnew, hregion⟩ := Sector.eq_new_of_ofRows r.newSectors_eq e he
      exact ⟨congrArg Sector.path hnew, hregion⟩
    · exact fun _ _ _ _ hs => hs
  good := by
    obtain ⟨demands, -, h⟩ := r.sectors_eq_update
    rw [← h]
    apply OrderedMap.forall_mem_update
      (P := fun (k : SectorPath) (s : Sector n α) => s.good = ⟨k.sector.name⟩)
    · intro e he
      exact congrArg Sector.good (Sector.eq_new_of_ofRows r.newSectors_eq e he).1
    · exact fun _ _ _ _ hs => hs
  subsector := by
    obtain ⟨parameters, -, h⟩ := r.subsectors_eq_update
    rw [← h, r.keys_sectors]
    apply OrderedMap.forall_mem_update
      (P := fun (k : SubsectorPath) (s : Subsector n α) =>
        s.id = k.subsector ∧ k.parent ∈ r.newSectors.keys)
    · intro e he
      obtain ⟨hnew, hparent⟩ := Subsector.eq_new_of_ofRows r.newSubsectors_eq e he
      exact ⟨congrArg Subsector.id hnew, hparent⟩
    · exact fun _ _ _ _ hs => hs
  technology := by
    obtain ⟨parameters, -, h⟩ := r.technologies_eq_update
    rw [← h]
    apply OrderedMap.forall_mem_update
      (P := fun (k : TechnologyPath) (t : Technology n α) =>
        t.id = k.technology ∧ k.parent ∈ r.subsectors.keys)
    · intro e he
      obtain ⟨⟨fuel, hnew⟩, hparent⟩ := Technology.eq_new_of_ofRows r.newTechnologies_eq e he
      exact ⟨congrArg Technology.id hnew, hparent⟩
    · exact fun _ _ _ _ ht => ht

end Reading

/-- What a model that is loaded comes of. -/
structure Loaded (t : Tables α) (m : Model α) where
  regionRows : List RegionRow
  index : OrderedMap RegionId RegionRow
  reading : Reading t m.parameters.calendar index.keys
  priceRows : List (PriceRow α)
  prices : PriceList m.parameters.periods α
  regionRows_eq : t.regions = .ok regionRows
  index_eq : RegionRow.index (α := α) regionRows = .ok index
  priceRows_eq : t.marketPrices = .ok priceRows
  prices_eq : PriceList.ofRows m.parameters.calendar index.keys priceRows = .ok prices
  regions : List.Forall₂
    (RegionRow.Makes (tree reading.sectors reading.subsectors reading.technologies) prices)
    regionRows m.world.regions

theorem nonempty_loaded {m : Model α} (h : t.load = .ok m) : Nonempty (Loaded t m) := by
  obtain ⟨parameters, -, h⟩ := bind_eq_ok.1 h
  obtain ⟨regionRows, hregionRows, h⟩ := bind_eq_ok.1 h
  obtain ⟨index, hindex, h⟩ := bind_eq_ok.1 h
  obtain ⟨sectors, hsectors, h⟩ := bind_eq_ok.1 h
  obtain ⟨priceRows, hpriceRows, h⟩ := bind_eq_ok.1 h
  obtain ⟨prices, hprices, h⟩ := bind_eq_ok.1 h
  obtain ⟨taxRows, -, h⟩ := bind_eq_ok.1 h
  obtain ⟨policies, -, h⟩ := bind_eq_ok.1 h
  obtain ⟨made, hmade, h⟩ := bind_eq_ok.1 h
  obtain ⟨world, hworld, h⟩ := bind_eq_ok.1 h
  obtain ⟨⟨⟩, -, hworld⟩ := bind_eq_ok.1 (mapError_eq_ok.1 hworld)
  cases h
  cases hworld
  obtain ⟨reading, rfl⟩ := exists_reading hsectors
  have hindex := mapError_eq_ok.1 hindex
  have hmade := mapM_eq_ok.1 (mapError_eq_ok.1 hmade)
  rw [RegionRow.values_index hindex] at hmade
  exact ⟨{
    regionRows, index, reading, priceRows, prices
    regionRows_eq := requiredRows_eq_ok hregionRows
    index_eq := hindex
    priceRows_eq := requiredRows_eq_ok hpriceRows
    prices_eq := mapError_eq_ok.1 hprices
    regions := hmade.imp fun _ _ => RegionRow.makes_of_region }⟩

namespace Loaded

variable {m : Model α} (x : Loaded t m)

/-- The rows that the model is laid out by. -/
def layout : Layout :=
  ⟨x.regionRows, x.reading.sectorRows, x.reading.subsectorRows, x.reading.technologyRows⟩

theorem layout_eq {l : Layout} (ht : t.HasLayout l) : x.layout = l := by
  have hregions := Except.ok.inj (x.regionRows_eq.symm.trans ht.regions)
  have hsectors := Except.ok.inj (x.reading.sectorRows_eq.symm.trans ht.sectors)
  have hsubsectors := Except.ok.inj (x.reading.subsectorRows_eq.symm.trans ht.subsectors)
  have htechnologies := Except.ok.inj (x.reading.technologyRows_eq.symm.trans ht.technologies)
  rw [layout, hregions, hsectors, hsubsectors, htechnologies]

theorem keys_index : x.index.keys = x.layout.regionIds :=
  RegionRow.keys_index x.index_eq

theorem nodup_regionIds : x.layout.regionIds.Nodup :=
  x.keys_index ▸ x.index.nodup

theorem fit : Fit (x.regionRows.map (·.id)) x.reading.sectors x.reading.subsectors
    x.reading.technologies :=
  Eq.subst (motive := fun ids => Fit ids x.reading.sectors x.reading.subsectors
    x.reading.technologies) x.keys_index x.reading.fit

theorem perm_sectorPaths : m.world.sectorPaths.Perm x.reading.newSectors.keys := by
  have hperm := (x.fit.perm_placedSectors x.nodup_regionIds x.regions).map (·.1)
  rw [← x.reading.keys_sectors]
  exact hperm.trans (.of_eq (OrderedMap.keys_mapValues _ _))

theorem perm_subsectorPaths : m.world.subsectorPaths.Perm x.reading.newSubsectors.keys := by
  have hperm := (x.fit.perm_placedSubsectors x.nodup_regionIds x.regions).map (·.1)
  rw [← x.reading.keys_subsectors]
  exact hperm.trans (.of_eq (OrderedMap.keys_mapValues _ _))

theorem perm_technologyPaths : m.world.technologyPaths.Perm x.reading.newTechnologies.keys := by
  rw [← x.reading.keys_technologies]
  exact (x.fit.perm_placedTechnologies x.nodup_regionIds x.regions).map (·.1)

theorem tabulates_sectors :
    Tabulates x.layout.regionIds (·.regions) (fun row region => ⟨region, row.id⟩) x.layout.sectors
      x.reading.newSectors := by
  rw [← x.keys_index]
  exact Sector.tabulates_ofRows x.index.nodup x.reading.newSectors_eq

theorem tabulates_subsectors :
    Tabulates x.layout.regionIds (·.regions) (fun row region => ⟨region, row.sector, row.id⟩)
      x.layout.subsectors x.reading.newSubsectors := by
  rw [← x.keys_index]
  exact Subsector.tabulates_ofRows x.index.nodup x.reading.newSubsectors_eq

theorem tabulates_technologies :
    Tabulates x.layout.regionIds (·.regions)
      (fun row region => ⟨region, row.sector, row.subsector, row.id⟩) x.layout.technologies
      x.reading.newTechnologies := by
  rw [← x.keys_index]
  exact Technology.tabulates_ofRows x.index.nodup x.reading.newTechnologies_eq

/-- The regions of the model are those of the rows, in their order. -/
theorem map_regions :
    m.world.regions.map (fun r => (⟨r.id, r.description, r.kind⟩ : RegionRow))
      = x.layout.regions := by
  have hrows := map_eq_of_forall₂ (f := id)
    (g := fun r => (⟨r.id, r.description, r.kind⟩ : RegionRow)) x.regions fun hr => by
      rw [hr.id, hr.description, hr.kind]
      rfl
  rw [← hrows, List.map_id]
  rfl

/-- Rows of which a model is loaded fit together. -/
theorem not_misplaced : ¬x.layout.Misplaced := by
  intro hmisplaced
  cases hmisplaced with
  | regionTwice h =>
    have hkeys : x.index.keys = x.layout.regions.flatMap fun row => [row.id] := by
      rw [x.keys_index, Layout.regionIds, List.map_eq_flatMap]
    exact not_clash_of_perm (.of_eq hkeys) h
  | sectorTwice h => exact not_clash_of_perm x.tabulates_sectors.perm h
  | subsectorTwice h => exact not_clash_of_perm x.tabulates_subsectors.perm h
  | technologyTwice h => exact not_clash_of_perm x.tabulates_technologies.perm h
  | @sectorAbsent row path hrow hpath h =>
    have hmem : path ∈ x.reading.newSubsectors.keys :=
      x.tabulates_subsectors.perm.mem_iff.2 (List.mem_flatMap.2 ⟨row, hrow, hpath⟩)
    obtain ⟨e, he, rfl⟩ := List.mem_map.1 hmem
    have hparent := (Subsector.eq_new_of_ofRows x.reading.newSubsectors_eq e he).2
    exact h (x.tabulates_sectors.perm.mem_iff.1 hparent)
  | @subsectorAbsent row path hrow hpath h =>
    have hmem : path ∈ x.reading.newTechnologies.keys :=
      x.tabulates_technologies.perm.mem_iff.2 (List.mem_flatMap.2 ⟨row, hrow, hpath⟩)
    obtain ⟨e, he, rfl⟩ := List.mem_map.1 hmem
    have hparent := (Technology.eq_new_of_ofRows x.reading.newTechnologies_eq e he).2
    rw [x.reading.keys_subsectors] at hparent
    exact h (x.tabulates_subsectors.perm.mem_iff.1 hparent)
  | illegibleSector hrow h => exact h (x.tabulates_sectors.legible _ hrow)
  | illegibleSubsector hrow h => exact h (x.tabulates_subsectors.legible _ hrow)
  | illegibleTechnology hrow h => exact h (x.tabulates_technologies.legible _ hrow)

end Loaded

omit [Quantity α] in
theorem requiredRows_eq_ok_of_ne_nil {ρ : Type} {file : ModelFile} {rows : List ρ}
    (h : rows ≠ []) : requiredRows (α := α) file (.ok rows) = .ok rows :=
  bind_eq_ok.2 ⟨rows, rfl, if_neg (mt List.isEmpty_iff.1 h)⟩

/-- Tables that are read give a model, unless the fuels of a region's sectors depend on each other
in a cycle. -/
theorem exists_load {parameters : Parameters α} {regionRows : List RegionRow}
    {index : OrderedMap RegionId RegionRow} {sectors : SectorTable parameters.periods α}
    {priceRows : List (PriceRow α)} {prices : PriceList parameters.periods α}
    {taxRows : List (CarbonTaxRow α)} {policies : List (Policy parameters.periods α)}
    (hparameters : t.parameters = .ok parameters)
    (hregionRows : requiredRows (α := α) .regions t.regions = .ok regionRows)
    (hindex : RegionRow.index (α := α) regionRows = .ok index)
    (hsectors : t.loadSectors parameters.calendar index.keys = .ok sectors)
    (hpriceRows : requiredRows (α := α) .marketPrices t.marketPrices = .ok priceRows)
    (hprices : PriceList.ofRows parameters.calendar index.keys priceRows = .ok prices)
    (htaxRows : t.carbonTax = .ok taxRows)
    (hpolicies : Policy.ofRows parameters.calendar index.keys taxRows = .ok policies)
    (hacyclic : ∀ row ∈ regionRows, ∀ s,
      ¬Relation.TransGen (Sector.ConsumesIn (SectorTable.within sectors row.id)) s s) :
    ∃ m, t.load = .ok m := by
  obtain ⟨reading, rfl⟩ := exists_reading hsectors
  have hmade : ∃ regions, index.values.mapM (RegionRow.region ·
      (tree reading.sectors reading.subsectors reading.technologies) prices) = .ok regions := by
    rw [RegionRow.values_index hindex]
    exact exists_mapM_eq_ok fun row hrow => reading.fit.exists_region row prices (hacyclic row hrow)
  obtain ⟨regions, hregions⟩ := hmade
  have hids : regions.map (·.id) = index.keys := by
    have hmade := mapM_eq_ok.1 hregions
    rw [RegionRow.values_index hindex] at hmade
    rw [RegionRow.keys_index hindex]
    exact (map_eq_of_forall₂ hmade fun h => (RegionRow.makes_of_region h).id.symm).symm
  have hworld : ∃ w, World.ofRegions parameters.calendar regions = .ok w := by
    have hnodup : (regions.map (·.id)).Nodup := hids ▸ index.nodup
    exact ⟨_, bind_eq_ok.2 ⟨(), World.checkRegions_eq_ok_of_nodup hnodup (by simp), rfl⟩⟩
  obtain ⟨w, hw⟩ := hworld
  refine ⟨⟨parameters, w, policies⟩, ?_⟩
  refine bind_eq_ok.2 ⟨parameters, mapError_eq_ok.2 hparameters, ?_⟩
  refine bind_eq_ok.2 ⟨regionRows, hregionRows, ?_⟩
  refine bind_eq_ok.2 ⟨index, mapError_eq_ok.2 hindex, ?_⟩
  refine bind_eq_ok.2 ⟨_, hsectors, ?_⟩
  refine bind_eq_ok.2 ⟨priceRows, hpriceRows, ?_⟩
  refine bind_eq_ok.2 ⟨prices, mapError_eq_ok.2 hprices, ?_⟩
  refine bind_eq_ok.2 ⟨taxRows, mapError_eq_ok.2 htaxRows, ?_⟩
  refine bind_eq_ok.2 ⟨policies, mapError_eq_ok.2 hpolicies, ?_⟩
  refine bind_eq_ok.2 ⟨regions, mapError_eq_ok.2 hregions, ?_⟩
  exact bind_eq_ok.2 ⟨w, mapError_eq_ok.2 hw, rfl⟩

/-- A model that is loaded has the regions of the rows, in their order, and sectors, subsectors and
technologies exactly in the places that the rows stand for, one in each. Rows that do not fit
together give no model. -/
theorem load_keeps_layout {l : Layout} (ht : t.HasLayout l) :
    (∀ m, t.load = .ok m →
      m.world.regions.map (fun r => (⟨r.id, r.description, r.kind⟩ : RegionRow)) = l.regions ∧
        (m.world.sectorPaths.Perm l.sectorPaths ∧ m.world.sectorPaths.Nodup) ∧
        (m.world.subsectorPaths.Perm l.subsectorPaths ∧ m.world.subsectorPaths.Nodup) ∧
        (m.world.technologyPaths.Perm l.technologyPaths ∧ m.world.technologyPaths.Nodup)) ∧
      (l.Misplaced → ∃ e, t.load = .error e) := by
  constructor
  · intro m hm
    obtain ⟨x⟩ := nonempty_loaded hm
    obtain rfl := x.layout_eq ht
    refine ⟨x.map_regions, ⟨x.perm_sectorPaths.trans x.tabulates_sectors.perm, ?_⟩,
      ⟨x.perm_subsectorPaths.trans x.tabulates_subsectors.perm, ?_⟩,
      x.perm_technologyPaths.trans x.tabulates_technologies.perm, ?_⟩
    · exact x.perm_sectorPaths.nodup_iff.2 x.reading.newSectors.nodup
    · exact x.perm_subsectorPaths.nodup_iff.2 x.reading.newSubsectors.nodup
    · exact x.perm_technologyPaths.nodup_iff.2 x.reading.newTechnologies.nodup
  · intro hmisplaced
    cases hload : t.load with
    | error e => exact ⟨e, rfl⟩
    | ok m =>
      obtain ⟨x⟩ := nonempty_loaded hload
      obtain rfl := x.layout_eq ht
      exact absurd hmisplaced x.not_misplaced

/-- Heat in two regions and power in one of them. -/
def valleyRows : Layout where
  regions :=
    [⟨⟨"north"⟩, "mountains", .generalEquilibrium⟩, ⟨⟨"south"⟩, "plains", .partialEquilibrium⟩]
  sectors := [⟨⟨"power"⟩, "north"⟩, ⟨⟨"heat"⟩, " south"⟩, ⟨⟨"heat"⟩, "north "⟩]
  subsectors := [⟨⟨"boilers"⟩, ⟨"heat"⟩, "south"⟩, ⟨⟨"wind"⟩, ⟨"power"⟩, "north"⟩]
  technologies := [⟨⟨"turbine"⟩, ⟨"wind"⟩, ⟨"power"⟩, "north", none⟩,
    ⟨⟨"wood"⟩, ⟨"boilers"⟩, ⟨"heat"⟩, "south", none⟩]

/-- The same with a second row for the heat of the south. -/
def crowdedRows : Layout :=
  { valleyRows with sectors := ⟨⟨"heat"⟩, "all"⟩ :: valleyRows.sectors }

/-- The years of three periods of different lengths. -/
def valleyYears : Calendar 3 :=
  ⟨⟨#v[2020, 2025, 2045]⟩, by decide, by decide⟩

/-- Boilers that lose weight and come to be limited, of which a share is fixed in the last year. -/
def boilerRows : List (SubsectorParameterRow ℚ) :=
  [⟨⟨"boilers"⟩, ⟨"heat"⟩, "south", 2020, some 2, none, some 1, none⟩,
    ⟨⟨"boilers"⟩, ⟨"heat"⟩, "south", 2045, some 0, none, some (4 / 5), some (3 / 4)⟩]

/-- Wood that has a fixed output first and is calibrated later. -/
def woodRows : List (TechnologyParameterRow ℚ) :=
  [⟨⟨"wood"⟩, ⟨"boilers"⟩, ⟨"heat"⟩, "south", 2020, none, some (-2), some 3, some (9 / 10), none,
      some 4, none⟩,
    ⟨⟨"wood"⟩, ⟨"boilers"⟩, ⟨"heat"⟩, "south", 2025, none, none, none, none, none, none, some 5⟩]

/-- Tables with rows that lay out a model, and with values for some of its members. -/
def valleyTables (l : Layout) : Tables ℚ where
  parameters := .ok ⟨3, valleyYears, true, 1 / 100, false⟩
  regions := .ok l.regions
  sectors := .ok l.sectors
  subsectors := .ok l.subsectors
  subsectorParameters := .ok boilerRows
  technologies := .ok l.technologies
  technologyParameters := .ok woodRows
  demand := .ok [⟨⟨"south"⟩, ⟨"heat"⟩, 2020, 5⟩]
  marketPrices := .ok [⟨⟨"north"⟩, ⟨"wood"⟩, 2020, 3⟩]
  carbonTax := .ok []

theorem valleyTables_hasLayout (l : Layout) : (valleyTables l).HasLayout l :=
  ⟨rfl, rfl, rfl, rfl⟩

theorem exists_load_valleyTables : ∃ m, (valleyTables valleyRows).load = .ok m := by
  obtain ⟨index, hindex, -⟩ : ∃ index, RegionRow.index (α := ℚ) valleyRows.regions = .ok index ∧
      true = true := exists_eq_ok_of_any (by decide +kernel)
  have hkeys : index.keys = [⟨"north"⟩, ⟨"south"⟩] := RegionRow.keys_index hindex
  obtain ⟨sectors, hsectors, hfuels⟩ : ∃ sectors,
      (valleyTables valleyRows).loadSectors valleyYears index.keys = .ok sectors ∧
        (sectors.entries.all fun e => e.2.fuels.isEmpty) = true := by
    rw [hkeys]
    exact exists_eq_ok_of_any (by decide +kernel)
  obtain ⟨prices, hprices, -⟩ : ∃ prices : PriceList 3 ℚ,
      PriceList.ofRows valleyYears index.keys [⟨⟨"north"⟩, ⟨"wood"⟩, 2020, 3⟩] = .ok prices ∧
        true = true := by
    rw [hkeys]
    exact exists_eq_ok_of_any (by decide +kernel)
  refine exists_load rfl (requiredRows_eq_ok_of_ne_nil (List.cons_ne_nil _ _)) hindex hsectors
    (requiredRows_eq_ok_of_ne_nil (List.cons_ne_nil _ _)) hprices rfl rfl ?_
  intro row _
  apply SectorTable.acyclic_of_fuels
  intro e he
  exact List.isEmpty_iff.1 (List.all_eq_true.1 hfuels e he)

/-- Everything is loaded from the rows of the valley, and nothing with a second row for the heat of
the south. -/
theorem valleyTables_keeps_layout :
    (∃ m, (valleyTables valleyRows).load = .ok m ∧
      m.world.technologyPaths.Perm
        [⟨⟨"north"⟩, ⟨"power"⟩, ⟨"wind"⟩, ⟨"turbine"⟩⟩,
          ⟨⟨"south"⟩, ⟨"heat"⟩, ⟨"boilers"⟩, ⟨"wood"⟩⟩]) ∧
      ∃ e, (valleyTables crowdedRows).load = .error e := by
  constructor
  · obtain ⟨m, hm⟩ := exists_load_valleyTables
    have hpaths : valleyRows.technologyPaths = [⟨⟨"north"⟩, ⟨"power"⟩, ⟨"wind"⟩, ⟨"turbine"⟩⟩,
        ⟨⟨"south"⟩, ⟨"heat"⟩, ⟨"boilers"⟩, ⟨"wood"⟩⟩] := by decide +kernel
    refine ⟨m, hm, hpaths ▸ ?_⟩
    exact ((load_keeps_layout (valleyTables_hasLayout valleyRows)).1 m hm).2.2.2.1
  · apply (load_keeps_layout (valleyTables_hasLayout crowdedRows)).2
    apply Layout.Misplaced.sectorTwice
    refine ⟨⟨0, by decide⟩, ⟨2, by decide⟩, by decide, ⟨⟨"south"⟩, ⟨"heat"⟩⟩, ?_, ?_⟩ <;>
      decide +kernel

end Tables

end NestedLogit
