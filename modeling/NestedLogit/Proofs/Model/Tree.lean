import NestedLogit.Model.Tables
import NestedLogit.Proofs.Except
import NestedLogit.Proofs.Pointwise
import NestedLogit.Proofs.Sector.Dependency

/-!
# From tables to the tree

The members of a table are handed to the parents that their places name. If every parent is there,
the tree that comes of it has the members of the tables, each once and in its place; the order of
calculation moves the sectors of a region about and changes nothing else.

## Main definitions

- `World.placedSectors`, `World.placedSubsectors`, `World.placedTechnologies` — the members of a
  world with their places
- `Tables.Fit` — tables that fit together
- `RegionRow.Makes` — what a region has of its row and of the tables

## Main statements

- `Tables.Fit.perm_placedSectors`, `Tables.Fit.perm_placedSubsectors`,
  `Tables.Fit.perm_placedTechnologies` — a world of tables has their members
- `Tables.Fit.exists_region` — sectors make a region unless their fuels depend on each other
-/

namespace NestedLogit

section Handing

variable {κ π ν : Type} [DecidableEq π] {entries : List (κ × ν)} {parents : List π}
  (parent : κ → π) (rebuild : π → ν → κ)

/-- What is handed to a parent is what belongs to it. -/
theorem map_within (h : ∀ e ∈ entries, rebuild (parent e.1) e.2 = e.1) (p : π) :
    ((entries.filterMap fun e => if parent e.1 = p then some e.2 else none).map
      fun v => (rebuild p v, v)) = entries.filter fun e => parent e.1 = p := by
  induction entries with
  | nil => rfl
  | cons e rest ih =>
    obtain ⟨he, hrest⟩ := List.forall_mem_cons.1 h
    by_cases hp : parent e.1 = p
    · rw [List.filter_cons, decide_eq_true hp, if_pos rfl, ← ih hrest, List.filterMap_cons,
        if_pos hp, ← hp]
      dsimp only
      rw [List.map_cons, he]
    · rw [List.filter_cons, decide_eq_false hp, if_neg Bool.false_ne_true, ← ih hrest,
        List.filterMap_cons, if_neg hp]

theorem nodup_map_within (hentries : (entries.map (·.1)).Nodup)
    (h : ∀ e ∈ entries, rebuild (parent e.1) e.2 = e.1) (p : π) :
    ((entries.filterMap fun e => if parent e.1 = p then some e.2 else none).map
      (rebuild p)).Nodup := by
  have hfiltered : ((entries.filter fun e => parent e.1 = p).map (·.1)).Nodup :=
    hentries.sublist (List.filter_sublist.map _)
  rwa [← map_within parent rebuild h p, List.map_map] at hfiltered

/-- Different parents get different entries, and all of them together get all. -/
theorem perm_flatMap_filter (hparents : parents.Nodup) (h : ∀ e ∈ entries, parent e.1 ∈ parents) :
    (parents.flatMap fun p => entries.filter fun e => parent e.1 = p).Perm entries := by
  induction parents generalizing entries with
  | nil =>
    have hnone : entries = [] := List.eq_nil_iff_forall_not_mem.2 fun e he => by
      simpa using h e he
    rw [hnone]
    exact .refl _
  | cons p rest ih =>
    obtain ⟨hp, hrest⟩ := List.nodup_cons.1 hparents
    have hothers : (rest.flatMap fun q => entries.filter fun e => parent e.1 = q)
        = rest.flatMap fun q =>
            (entries.filter fun e => !decide (parent e.1 = p)).filter fun e => parent e.1 = q := by
      apply List.flatMap_congr
      intro q hq
      rw [List.filter_filter]
      apply List.filter_congr
      intro e _
      by_cases heq : parent e.1 = q
      · have hne : parent e.1 ≠ p := fun hsame => hp (hsame ▸ heq ▸ hq)
        simp [heq, heq ▸ hne]
      · simp [heq]
    -- What belongs to the first parent is filtered out, and the others share the rest.
    rw [List.flatMap_cons, hothers]
    refine ((List.Perm.refl _).append (ih hrest ?_)).trans (List.filter_append_perm _ _)
    intro e he
    obtain ⟨hmem, hne⟩ := List.mem_filter.1 he
    refine (List.mem_cons.1 (h e hmem)).resolve_left ?_
    simpa using hne

/-- Handing entries to their parents loses none of them. -/
theorem perm_flatMap_within (hparents : parents.Nodup)
    (hplaced : ∀ e ∈ entries, rebuild (parent e.1) e.2 = e.1 ∧ parent e.1 ∈ parents) :
    (parents.flatMap fun p =>
      (entries.filterMap fun e => if parent e.1 = p then some e.2 else none).map
        fun v => (rebuild p v, v)).Perm entries := by
  simp only [map_within parent rebuild fun e he => (hplaced e he).1]
  exact perm_flatMap_filter parent hparents fun e he => (hplaced e he).2

end Handing

/-- The place of a subsector of a sector. -/
def SectorPath.child (p : SectorPath) (id : SubsectorId) : SubsectorPath :=
  ⟨p.region, p.sector, id⟩

/-- The place of a technology of a subsector. -/
def SubsectorPath.child (p : SubsectorPath) (id : TechnologyId) : TechnologyPath :=
  ⟨p.region, p.sector, p.subsector, id⟩

variable {n : Nat} {α : Type}

/-- The sectors of a region with their places. -/
def Region.placedSectors (r : Region n α) : List (SectorPath × Sector n α) :=
  r.sectors.map fun s => (⟨r.id, s.id⟩, s)

/-- The subsectors of a sector with their places. -/
def placedSubsectors (e : SectorPath × Sector n α) : List (SubsectorPath × Subsector n α) :=
  e.2.subsectors.map fun s => (e.1.child s.id, s)

/-- The technologies of a subsector with their places. -/
def placedTechnologies (e : SubsectorPath × Subsector n α) :
    List (TechnologyPath × Technology n α) :=
  e.2.technologies.map fun t => (e.1.child t.id, t)

namespace World

/-- The sectors of a world with their places. -/
def placedSectors (w : World n α) : List (SectorPath × Sector n α) :=
  w.regions.flatMap Region.placedSectors

/-- The subsectors of a world with their places. -/
def placedSubsectors (w : World n α) : List (SubsectorPath × Subsector n α) :=
  w.placedSectors.flatMap NestedLogit.placedSubsectors

/-- The technologies of a world with their places. -/
def placedTechnologies (w : World n α) : List (TechnologyPath × Technology n α) :=
  w.placedSubsectors.flatMap NestedLogit.placedTechnologies

end World

/-- Members of tables have the names of their places, and their parents are there. -/
structure Tables.Fit (regions : List RegionId) (sectors : SectorTable n α)
    (subsectors : SubsectorTable n α) (technologies : TechnologyTable n α) : Prop where
  sector : ∀ e ∈ sectors.entries, e.2.path = e.1 ∧ e.1.region ∈ regions
  good : ∀ e ∈ sectors.entries, e.2.good = ⟨e.1.sector.name⟩
  subsector : ∀ e ∈ subsectors.entries, e.2.id = e.1.subsector ∧ e.1.parent ∈ sectors.keys
  technology : ∀ e ∈ technologies.entries,
    e.2.id = e.1.technology ∧ e.1.parent ∈ subsectors.keys

namespace Tables

/-- The sectors of tables with everything in them. -/
def tree (sectors : SectorTable n α) (subsectors : SubsectorTable n α)
    (technologies : TechnologyTable n α) : SectorTable n α :=
  SectorTable.withSubsectors sectors (SubsectorTable.withTechnologies subsectors technologies)

namespace Fit

variable {regions : List RegionId} {sectors : SectorTable n α} {subsectors : SubsectorTable n α}
  {technologies : TechnologyTable n α}

theorem perm_technologies (h : Fit regions sectors subsectors technologies) :
    ((SubsectorTable.withTechnologies subsectors technologies).entries.flatMap
      placedTechnologies).Perm technologies.entries := by
  have hplaced : ∀ e ∈ technologies.entries,
      e.1.parent.child e.2.id = e.1 ∧ e.1.parent ∈ subsectors.keys := by
    intro e he
    obtain ⟨hid, hparent⟩ := h.technology e he
    refine ⟨?_, hparent⟩
    rw [hid]
    rfl
  have hhanded := perm_flatMap_within
    TechnologyPath.parent (fun p (t : Technology n α) => p.child t.id) subsectors.nodup hplaced
  rw [List.flatMap_map] at hhanded
  rw [SubsectorTable.withTechnologies, OrderedMap.mapValues, List.flatMap_map]
  exact hhanded

theorem perm_subsectors (h : Fit regions sectors subsectors technologies) :
    ((tree sectors subsectors technologies).entries.flatMap placedSubsectors).Perm
      (SubsectorTable.withTechnologies subsectors technologies).entries := by
  have hplaced : ∀ e ∈ (SubsectorTable.withTechnologies subsectors technologies).entries,
      e.1.parent.child e.2.id = e.1 ∧ e.1.parent ∈ sectors.keys := by
    intro e he
    obtain ⟨e, hmem, rfl⟩ := List.mem_map.1 he
    obtain ⟨hid, hparent⟩ := h.subsector e hmem
    refine ⟨?_, hparent⟩
    dsimp only
    rw [hid]
    rfl
  have hhanded := perm_flatMap_within
    SubsectorPath.parent (fun p (s : Subsector n α) => p.child s.id) sectors.nodup hplaced
  rw [List.flatMap_map] at hhanded
  rw [tree, SectorTable.withSubsectors, OrderedMap.mapValues, List.flatMap_map]
  exact hhanded

theorem rebuilt (h : Fit regions sectors subsectors technologies) :
    ∀ e ∈ (tree sectors subsectors technologies).entries,
      (⟨e.1.region, e.2.id⟩ : SectorPath) = e.1 ∧ e.1.region ∈ regions := by
  intro e he
  obtain ⟨e, hmem, rfl⟩ := List.mem_map.1 he
  obtain ⟨hpath, hparent⟩ := h.sector e hmem
  refine ⟨?_, hparent⟩
  rw [← hpath]
  rfl

theorem perm_sectors (h : Fit regions sectors subsectors technologies) (hregions : regions.Nodup) :
    (regions.flatMap fun id =>
      (SectorTable.within (tree sectors subsectors technologies) id).map
        fun s => ((⟨id, s.id⟩ : SectorPath), s)).Perm
      (tree sectors subsectors technologies).entries :=
  perm_flatMap_within SectorPath.region (fun id (s : Sector n α) => ⟨id, s.id⟩) hregions h.rebuilt

end Fit

end Tables

section Assembly

/-- A region that is made of a row. -/
structure RegionRow.Makes (sectors : SectorTable n α) (prices : PriceList n α) (row : RegionRow)
    (r : Region n α) : Prop where
  id : r.id = row.id
  description : r.description = row.description
  kind : r.kind = row.kind
  sectors : r.sectors.Perm (SectorTable.within sectors row.id)
  prices : r.market.prices = PriceList.ofRegion prices row.id

/-- A region has the sectors of its table, in whichever order they are calculated. -/
theorem RegionRow.makes_of_region [Quantity α] {sectors : SectorTable n α} {prices : PriceList n α}
    {row : RegionRow} {r : Region n α} (h : row.region sectors prices = .ok r) :
    row.Makes sectors prices r := by
  obtain ⟨made, hmade, h⟩ := bind_eq_ok.1 h
  obtain ⟨⟨⟩, -, hmade⟩ := bind_eq_ok.1 hmade
  cases h
  cases hordered : Sector.order (SectorTable.within sectors row.id) with
  | error e =>
    rw [hordered] at hmade
    cases hmade
  | ok ordered =>
    rw [hordered] at hmade
    cases hmade
    exact ⟨rfl, rfl, rfl, Sector.perm_of_order hordered, rfl⟩

/-- Sectors of one region that have different names pass the checks. -/
theorem Region.checkSectors_eq_ok {id : RegionId} {seen : List SectorId} {ss : List (Sector n α)}
    (hregion : ∀ s ∈ ss, s.regionId = id) (hnodup : (ss.map (·.id)).Nodup)
    (hseen : ∀ s ∈ ss, s.id ∉ seen) : checkSectors id seen ss = .ok () := by
  induction ss generalizing seen with
  | nil => rfl
  | cons s rest ih =>
    obtain ⟨hs, hrest⟩ := List.forall_mem_cons.1 hregion
    obtain ⟨hnew, hrestSeen⟩ := List.forall_mem_cons.1 hseen
    obtain ⟨hother, hnodup⟩ := List.nodup_cons.1 hnodup
    rw [checkSectors, if_neg (not_not.2 hs), if_neg hnew]
    apply ih hrest hnodup
    intro x hx hmem
    rcases List.mem_cons.1 hmem with hsame | hmem
    · exact hother (List.mem_map.2 ⟨x, hx, hsame⟩)
    · exact hrestSeen x hx hmem

section Within

variable {regions : List RegionId} {sectors : SectorTable n α} {subsectors : SubsectorTable n α}
  {technologies : TechnologyTable n α}

/-- The sectors of a region have its name, and supply goods of their own names. -/
theorem Tables.Fit.within (h : Fit regions sectors subsectors technologies) (region : RegionId) :
    ∀ s ∈ SectorTable.within (tree sectors subsectors technologies) region,
      s.regionId = region ∧ s.good = ⟨s.id.name⟩ := by
  intro s hs
  obtain ⟨e, he, hes⟩ := List.mem_filterMap.1 hs
  obtain ⟨e, hmem, rfl⟩ := List.mem_map.1 he
  split at hes
  · next hregion =>
    cases hes
    have hpath := (h.sector e hmem).1
    refine ⟨(congrArg SectorPath.region hpath).trans hregion, (h.good e hmem).trans ?_⟩
    exact congrArg Id.mk (congrArg (fun p => p.sector.name) hpath.symm)
  · cases hes

theorem Tables.Fit.nodup_ids (h : Fit regions sectors subsectors technologies)
    (region : RegionId) :
    ((SectorTable.within (tree sectors subsectors technologies) region).map (·.id)).Nodup := by
  have hpaths := nodup_map_within SectorPath.region (fun id (s : Sector n α) => ⟨id, s.id⟩)
    (tree sectors subsectors technologies).nodup (fun e he => (h.rebuilt e he).1) region
  refine List.Nodup.of_map (fun id => (⟨region, id⟩ : SectorPath)) ?_
  rwa [List.map_map]

theorem Tables.Fit.nodup_goods (h : Fit regions sectors subsectors technologies)
    (region : RegionId) :
    ((SectorTable.within (tree sectors subsectors technologies) region).map (·.good)).Nodup := by
  have hmap := (h.nodup_ids region).map (f := fun id => (⟨id.name⟩ : GoodId)) fun i j hij =>
    congrArg Id.mk (Id.mk.inj hij)
  rw [List.map_map] at hmap
  rwa [List.map_congr_left fun s hs => (h.within region s hs).2]

/-- The sectors of a region are a region's, unless their fuels depend on each other in a cycle. -/
theorem Tables.Fit.exists_region [Quantity α]
    (h : Fit regions sectors subsectors technologies) (row : RegionRow) (prices : PriceList n α)
    (hacyclic : ∀ s, ¬Relation.TransGen
      (Sector.ConsumesIn (SectorTable.within (tree sectors subsectors technologies) row.id)) s s) :
    ∃ r, row.region (tree sectors subsectors technologies) prices = .ok r := by
  cases hordered : Sector.order
      (SectorTable.within (tree sectors subsectors technologies) row.id) with
  | error e =>
    -- Sectors without an order depend on each other in a cycle, as no two supply the same good.
    obtain ⟨s, -, hcycle⟩ := Sector.cyclic_of_order (h.nodup_goods row.id) hordered
    exact absurd hcycle (hacyclic s)
  | ok ordered =>
    have hchecked : Region.checkSectors row.id []
        (SectorTable.within (tree sectors subsectors technologies) row.id) = .ok () :=
      Region.checkSectors_eq_ok (fun s hs => (h.within row.id s hs).1) (h.nodup_ids row.id)
        (by simp)
    have hmade : ∃ r, Region.ofSectors row.id row.description row.kind
        (SectorTable.within (tree sectors subsectors technologies) row.id) = .ok r := by
      rw [Region.ofSectors, hchecked, hordered]
      exact ⟨_, rfl⟩
    obtain ⟨r, hr⟩ := hmade
    exact ⟨_, bind_eq_ok.2 ⟨r, hr, rfl⟩⟩

end Within

/-- Sectors without fuels do not depend on each other. -/
theorem SectorTable.acyclic_of_fuels {sectors : SectorTable n α} {region : RegionId}
    (h : ∀ e ∈ sectors.entries, e.2.fuels = []) (s : Sector n α) :
    ¬Relation.TransGen (Sector.ConsumesIn (SectorTable.within sectors region)) s s := by
  have hnone : ∀ s t, ¬Sector.ConsumesIn (SectorTable.within sectors region) s t := by
    rintro s t ⟨hs, -, hconsumes⟩
    obtain ⟨e, he, hes⟩ := List.mem_filterMap.1 hs
    split at hes
    · cases hes
      rw [Sector.consumes_iff, h e he] at hconsumes
      cases hconsumes
    · cases hes
  intro hcycle
  cases hcycle with
  | single hst => exact hnone _ _ hst
  | tail _ hst => exact hnone _ _ hst

namespace Tables.Fit

variable {rows : List RegionRow} {sectors : SectorTable n α} {subsectors : SubsectorTable n α}
  {technologies : TechnologyTable n α} {prices : PriceList n α} {w : World n α}
  (h : Fit (rows.map (·.id)) sectors subsectors technologies) (hrows : (rows.map (·.id)).Nodup)
  (hw : List.Forall₂ (RegionRow.Makes (tree sectors subsectors technologies) prices) rows w.regions)

include h hrows hw

theorem perm_placedSectors :
    w.placedSectors.Perm (tree sectors subsectors technologies).entries := by
  refine List.Perm.trans (List.Perm.symm ?_) (h.perm_sectors hrows)
  rw [List.flatMap_map]
  apply perm_flatMap_of_forall₂
  refine hw.imp fun row r hr => List.Perm.symm ?_
  rw [Region.placedSectors, hr.id]
  exact hr.sectors.map _

theorem perm_placedSubsectors :
    w.placedSubsectors.Perm (SubsectorTable.withTechnologies subsectors technologies).entries :=
  ((h.perm_placedSectors hrows hw).flatMap_right _).trans h.perm_subsectors

theorem perm_placedTechnologies : w.placedTechnologies.Perm technologies.entries :=
  ((h.perm_placedSubsectors hrows hw).flatMap_right _).trans h.perm_technologies

end Tables.Fit

end Assembly

end NestedLogit
