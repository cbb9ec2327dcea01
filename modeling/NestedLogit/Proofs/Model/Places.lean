import NestedLogit.Model.Technologies
import NestedLogit.Proofs.Model.Insertion
import NestedLogit.Proofs.Model.RegionList

/-!
# Where rows put what they give

A row of sectors, subsectors or technologies stands for one of them in each region that it names.
The tables that are made of rows have exactly these places, each once, and nothing is in a place
whose parent is not there.

## Main definitions

- `SectorRow.places`, `SubsectorRow.places`, `TechnologyRow.places` — what a row stands for
- `Tabulates` — that a table has the places of rows
- `Clash` — that two rows stand for the same place

## Main statements

- `Sector.tabulates_ofRows`, `Subsector.tabulates_ofRows`, `Technology.tabulates_ofRows`
- `RegionRow.values_index` — the rows of regions are kept in their order
-/

namespace NestedLogit

variable {ε κ ν ρ : Type} {regions : List RegionId}

/-- The places that a row has in the regions that a text names. -/
def placesIn (regions : List RegionId) (text : String) (place : RegionId → κ) : List κ :=
  (regions.filter fun id => Naming.Names text id).map place

/-- The places of the sectors that a row stands for. -/
def SectorRow.places (regions : List RegionId) (row : SectorRow) : List SectorPath :=
  placesIn regions row.regions fun region => ⟨region, row.id⟩

/-- The places of the subsectors that a row stands for. -/
def SubsectorRow.places (regions : List RegionId) (row : SubsectorRow) : List SubsectorPath :=
  placesIn regions row.regions fun region => ⟨region, row.sector, row.id⟩

/-- The places of the technologies that a row stands for. -/
def TechnologyRow.places (regions : List RegionId) (row : TechnologyRow) : List TechnologyPath :=
  placesIn regions row.regions fun region => ⟨region, row.sector, row.subsector, row.id⟩

theorem rowRegions_map_eq_ok {α : Type} {row text : String} {place : RegionId → κ} {l : List κ}
    (h : (do return (← rowRegions (α := α) regions row text).map place) = Except.ok l) :
    ∃ ids : List RegionId, (∀ id, id ∈ ids ↔ id ∈ regions ∧ Naming.Names text id) ∧
      l = ids.map place ∧ Naming.Legible text regions := by
  obtain ⟨ids, hids, h⟩ := bind_eq_ok.1 h
  cases h
  obtain ⟨hlegible, hmem⟩ := Naming.parseRowRegions_eq_ok (mapError_eq_ok.1 hids)
  exact ⟨ids, hmem, rfl, hlegible⟩

/-- The places of rows are those of a table, and every row names regions that there are. -/
structure Tabulates (regions : List RegionId) (text : ρ → String) (place : ρ → RegionId → κ)
    (rows : List ρ) (table : OrderedMap κ ν) : Prop where
  perm : table.keys.Perm (rows.flatMap fun row => placesIn regions (text row) (place row))
  legible : ∀ row ∈ rows, Naming.Legible (text row) regions

/-- Two rows stand for the same place. -/
def Clash (places : ρ → List κ) (rows : List ρ) : Prop :=
  ∃ i j : Fin rows.length, i < j ∧ ∃ path, path ∈ places rows[i] ∧ path ∈ places rows[j]

/-- No place of a table is among those of two rows. -/
theorem not_clash_of_perm {places : ρ → List κ} {rows : List ρ} {table : OrderedMap κ ν}
    (h : table.keys.Perm (rows.flatMap places)) : ¬Clash places rows := by
  rintro ⟨i, j, hij, path, hi, hj⟩
  have hnodup : (rows.flatMap places).Nodup := h.nodup_iff.1 table.nodup
  have hdisjoint := List.pairwise_iff_getElem.1 (List.nodup_flatMap.1 hnodup).2
  exact hdisjoint i j i.isLt j.isLt hij hi hj

section Insertion

variable {α : Type} [DecidableEq κ] (name text : ρ → String) (place : ρ → RegionId → κ)
  {entry : ρ → κ → Except (RowError α) ν} {duplicate : DuplicateKey κ → RowError α}
  {rows : List ρ} {table : OrderedMap κ ν}

theorem tabulates_insertRows (hregions : regions.Nodup)
    (h : OrderedMap.insertRows
      (fun row => do return (← rowRegions regions (name row) (text row)).map (place row))
      entry duplicate .empty rows = .ok table) :
    Tabulates regions text place rows table where
  perm := by
    refine OrderedMap.perm_insertRows (fun row l hl hnodup => ?_) h
    obtain ⟨ids, hids, rfl, -⟩ := rowRegions_map_eq_ok hl
    apply List.Perm.map
    apply (List.perm_ext_iff_of_nodup hnodup.of_map (hregions.filter _)).2
    intro id
    rw [hids, List.mem_filter, decide_eq_true_iff]
  legible row hrow := by
    obtain ⟨l, hl, -⟩ := OrderedMap.exists_entry_of_mem_rows h hrow
    obtain ⟨-, -, -, hlegible⟩ := rowRegions_map_eq_ok hl
    exact hlegible

end Insertion

variable {n : Nat} {α : Type}

section Regions

variable {rows : List RegionRow} {index : OrderedMap RegionId RegionRow}

/-- Every row of a region is kept under its name, in the order of the rows. -/
theorem RegionRow.entries_index (h : RegionRow.index (α := α) rows = .ok index) :
    index.entries = rows.map fun row => (row.id, row) := by
  obtain ⟨added, hentries, hadded⟩ := OrderedMap.entries_insertRows h
  rw [hentries]
  clear h hentries
  induction hadded with
  | nil => rfl
  | @cons row es _ _ hstands _ ih =>
    have hes : es = [(row.id, row)] := by
      have hkeys := Except.ok.inj hstands.keys
      obtain ⟨e, rfl, hid⟩ := List.map_eq_singleton_iff.1 hkeys.symm
      have hentry := hstands.entry e List.mem_cons_self
      unfold RegionRow.index.entry at hentry
      split at hentry
      · cases hentry
      · split at hentry
        · cases hentry
        · rw [← hid, Except.ok.inj hentry]
    rw [List.flatten_cons, ih, hes]
    rfl

theorem RegionRow.keys_index (h : RegionRow.index (α := α) rows = .ok index) :
    index.keys = rows.map (·.id) := by
  rw [OrderedMap.keys, entries_index h, List.map_map]
  rfl

theorem RegionRow.values_index (h : RegionRow.index (α := α) rows = .ok index) :
    index.values = rows := by
  rw [OrderedMap.values, entries_index h, List.map_map]
  exact List.map_id rows

end Regions

variable [Quantity α]

section Sectors

variable {rows : List SectorRow} {table : SectorTable n α}

theorem Sector.tabulates_ofRows (hregions : regions.Nodup)
    (h : Sector.ofRows regions rows = .ok table) :
    Tabulates regions (·.regions) (fun row region => ⟨region, row.id⟩) rows table := by
  apply tabulates_insertRows (fun row => row.id.name) _ _ hregions
  exact h

/-- Sectors are new, and their regions are there. -/
theorem Sector.eq_new_of_ofRows (h : Sector.ofRows regions rows = .ok table) :
    ∀ e ∈ table.entries, e.2 = .new n e.1 ∧ e.1.region ∈ regions := by
  intro e he
  obtain ⟨row, -, ⟨l, hl, hmem⟩, hentry⟩ := OrderedMap.exists_row_of_mem_entries h he
  obtain ⟨ids, hids, rfl, -⟩ := rowRegions_map_eq_ok hl
  obtain ⟨region, hregion, hpath⟩ := List.mem_map.1 hmem
  refine ⟨(Except.ok.inj hentry).symm, ?_⟩
  rw [← hpath]
  exact ((hids region).1 hregion).1

end Sectors

section Subsectors

variable {sectors : SectorTable n α} {rows : List SubsectorRow} {table : SubsectorTable n α}

theorem Subsector.tabulates_ofRows (hregions : regions.Nodup)
    (h : Subsector.ofRows regions sectors rows = .ok table) :
    Tabulates regions (·.regions) (fun row region => ⟨region, row.sector, row.id⟩) rows table := by
  apply tabulates_insertRows (fun row => row.id.name) _ _ hregions
  exact h

/-- Subsectors are new, and their sectors are there. -/
theorem Subsector.eq_new_of_ofRows (h : Subsector.ofRows regions sectors rows = .ok table) :
    ∀ e ∈ table.entries, e.2 = .new n e.1 ∧ e.1.parent ∈ sectors.keys := by
  intro e he
  obtain ⟨row, -, -, hentry⟩ := OrderedMap.exists_row_of_mem_entries h he
  unfold Subsector.ofRows.entry at hentry
  split at hentry
  · next hparent =>
    exact ⟨(Except.ok.inj hentry).symm, of_decide_eq_true hparent⟩
  · cases hentry

end Subsectors

section Technologies

variable {subsectors : SubsectorTable n α} {rows : List TechnologyRow} {table : TechnologyTable n α}

theorem Technology.tabulates_ofRows (hregions : regions.Nodup)
    (h : Technology.ofRows regions subsectors rows = .ok table) :
    Tabulates regions (·.regions)
      (fun row region => ⟨region, row.sector, row.subsector, row.id⟩) rows table := by
  apply tabulates_insertRows (fun row => row.id.name) _ _ hregions
  exact h

/-- Technologies are new and have the names of their places, and their subsectors are there. -/
theorem Technology.eq_new_of_ofRows (h : Technology.ofRows regions subsectors rows = .ok table) :
    ∀ e ∈ table.entries, (∃ fuel, e.2 = .new n e.1.technology fuel) ∧
      e.1.parent ∈ subsectors.keys := by
  intro e he
  obtain ⟨row, -, ⟨l, hl, hmem⟩, hentry⟩ := OrderedMap.exists_row_of_mem_entries h he
  have hid : e.1.technology = row.id := by
    obtain ⟨ids, -, rfl, -⟩ := rowRegions_map_eq_ok hl
    obtain ⟨region, -, hpath⟩ := List.mem_map.1 hmem
    rw [← hpath]
  unfold Technology.ofRows.entry at hentry
  split at hentry
  · next hparent =>
    refine ⟨⟨row.fuel, ?_⟩, of_decide_eq_true hparent⟩
    rw [hid]
    exact (Except.ok.inj hentry).symm
  · cases hentry

end Technologies

end NestedLogit
