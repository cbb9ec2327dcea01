import Mathlib.Data.Rat.Init
import NestedLogit.Proofs.Model.Places
import NestedLogit.Proofs.Text.Blank

/-!
# Regions that can be named

A list of regions is read back as the regions whose names were put into it, if every name can stand
in a list: blank space at the ends of a name is taken away, and a semicolon ends it. A region is
accepted under other names too. Such a region cannot be named, with one exception: a region whose
name is the word for all regions but for blank space is named if it is the only one.

## Main definitions

- `Naming.listing` — the text that lists regions
- `Naming.Listable` — a name that can stand in a list

## Main statements

- `RegionRow.allowed_of_index` — the names that regions are accepted under
- `Naming.listed_listing` — listed names are read back
- `Naming.parseRegions_listing_iff` — when a list names exactly the regions it was made of
-/

namespace NestedLogit

/-- A region that is accepted has a name, and not the one that stands for all regions. -/
theorem RegionRow.allowed_of_index {α : Type} {rows : List RegionRow}
    {index : OrderedMap RegionId RegionRow} (h : RegionRow.index (α := α) rows = .ok index)
    {id : RegionId} (hid : id ∈ index.keys) :
    id.name.isEmpty = false ∧ isAllRegions id.name = false := by
  obtain ⟨e, he, rfl⟩ := List.mem_map.1 hid
  obtain ⟨row, -, -, hentry⟩ := OrderedMap.exists_row_of_mem_entries h he
  unfold RegionRow.index.entry at hentry
  split at hentry
  · cases hentry
  · next hnamed =>
    split at hentry
    · cases hentry
    · next hfree => exact ⟨Bool.eq_false_iff.2 hnamed, Bool.eq_false_iff.2 hfree⟩

namespace Naming

variable {ids regions : List RegionId} {text : String}

/-- The text that lists regions, with semicolons between their names. -/
def listing (ids : List RegionId) : String :=
  ";".intercalate (ids.map (·.name))

/-- A name can stand in a list: it has no blank space at its ends and no semicolon. -/
structure Listable (name : String) : Prop where
  trimmed : Text.Trimmed name.toList
  unbroken : ';' ∉ name.toList

theorem toList_listing (ids : List RegionId) :
    (listing ids).toList = [';'].intercalate (ids.map fun id => id.name.toList) := by
  rw [listing, String.toList_intercalate, List.map_map]
  rfl

theorem listing_singleton (id : RegionId) : listing [id] = id.name := by
  rw [← String.toList_inj, toList_listing, List.map_singleton, List.intercalate_singleton]

theorem trim_eq_self (h : Text.Trimmed text.toList) : Text.trim text = text := by
  rw [Text.trim, Text.trimChars_eq_self_iff.2 h, String.ofList_toList]

/-- Whatever is read from a list could be listed. -/
theorem listable_of_mem_listed {name : String} (h : name ∈ listed text) : Listable name := by
  obtain ⟨part, hpart, rfl⟩ := List.mem_map.1 h
  constructor
  · rw [String.toList_ofList]
    exact Text.trimmed_trimChars part
  · rw [String.toList_ofList]
    exact fun hmem => Text.not_mem_of_mem_cut hpart (Text.trimChars_subset part hmem)

section Listing

variable (hne : ids ≠ []) (h : ∀ id ∈ ids, id.name.toList ≠ [] ∧ Listable id.name)

include hne h

theorem trim_listing : (listing ids).toList ≠ [] ∧ Text.trim (listing ids) = listing ids := by
  have hparts : ∀ part ∈ ids.map fun id => id.name.toList, part ≠ [] ∧ Text.Trimmed part :=
    List.forall_mem_map.2 fun id hid => ⟨(h id hid).1, (h id hid).2.trimmed⟩
  have hjoined := Text.trimmed_intercalate (by simpa using hne) hparts [';']
  rw [← toList_listing] at hjoined
  exact ⟨hjoined.1, trim_eq_self hjoined.2⟩

/-- Names that can stand in a list are read back from it. -/
theorem listed_listing : listed (listing ids) = ids.map (·.name) := by
  have hparts : ∀ part ∈ ids.map fun id => id.name.toList, ';' ∉ part :=
    List.forall_mem_map.2 fun id hid => (h id hid).2.unbroken
  have hcut := Text.cut_intercalate (by simpa using hne) hparts
  rw [listed, (trim_listing hne h).2, toList_listing, hcut, List.map_map]
  refine List.map_congr_left fun id hid => ?_
  rw [Function.comp_apply, Text.trimChars_eq_self_iff.2 (h id hid).2.trimmed, String.ofList_toList]

end Listing

/-- The word for all regions has no semicolon. -/
theorem unbroken_of_isAll (h : isAll text = true) : ';' ∉ text.toList := by
  intro hmem
  have hkept : ';' ∈ (Text.trim text).toList := by
    rw [Text.trim, String.toList_ofList]
    exact Text.mem_trimChars hmem (by decide)
  have hword : (Text.trim text).toList.map Char.toLower = "all".toList.map Char.toLower :=
    beq_iff_eq.1 h
  have hlower := List.mem_map_of_mem (f := Char.toLower) hkept
  rw [hword] at hlower
  exact absurd hlower (by decide)

/-- A list that is the word for all regions has one name. -/
theorem eq_singleton_of_isAll (hne : ids ≠ []) (h : isAll (listing ids) = true) :
    ∃ id, ids = [id] ∧ isAll id.name = true := by
  obtain ⟨id, rest, rfl⟩ := List.exists_cons_of_ne_nil hne
  cases rest with
  | nil => exact ⟨id, rfl, listing_singleton id ▸ h⟩
  | cons id' rest =>
    have hunbroken := unbroken_of_isAll h
    rw [toList_listing, List.map_cons, List.map_cons, List.intercalate_cons_cons] at hunbroken
    simp at hunbroken

theorem exists_parseRegions (h : Legible text regions) :
    ∃ found, parseRegions text regions = .ok found := by
  unfold parseRegions
  dsimp only
  rw [h.not_blank, if_neg Bool.false_ne_true]
  split
  · exact ⟨regions, rfl⟩
  · next hall =>
    have hknown := h.known.resolve_left hall
    have hfinds : ∀ part ∈ Text.cut ';' (Text.trim text).toList,
        ∃ id, Id.find regions (String.ofList (Text.trimChars part)) = .ok id := by
      intro part hpart
      obtain ⟨id, hid, hname⟩ := hknown _ (List.mem_map_of_mem hpart)
      exact ⟨id, Id.find_eq_ok.2 ⟨hid, hname⟩⟩
    obtain ⟨found, hfound⟩ := exists_mapM_eq_ok hfinds
    exact ⟨found, mapError_eq_ok.2 hfound⟩

theorem parseRegions_of_isAll (h : isAll text = true) :
    parseRegions text regions = .ok regions := by
  have hsome : ¬(Text.trim text).isEmpty = true := by
    intro hblank
    rw [isAll, String.isEmpty_iff.1 hblank] at h
    exact absurd h (by decide)
  have hword : isAllRegions (Text.trim text) = true := h
  unfold parseRegions
  dsimp only
  rw [if_neg hsome, if_pos hword]

section Accepted

variable {α : Type} {rows : List RegionRow} {index : OrderedMap RegionId RegionRow}
  (hindex : RegionRow.index (α := α) rows = .ok index) (hne : ids ≠ []) (hsub : ids ⊆ index.keys)

include hindex hne hsub

/-- No list of accepted names that can stand in it is the word for all regions. -/
theorem isAll_listing_eq_false (h : ∀ id ∈ ids, Listable id.name) : isAll (listing ids) = false := by
  by_contra hall
  obtain ⟨id, rfl, hid⟩ := eq_singleton_of_isAll hne (by simpa using hall)
  have hfree := (RegionRow.allowed_of_index hindex (hsub List.mem_cons_self)).2
  rw [isAll, trim_eq_self (h id List.mem_cons_self).trimmed] at hid
  exact Bool.noConfusion (hid.symm.trans hfree)

/-- A list of accepted regions is read as naming them, if their names can stand in a list. -/
theorem parseRegions_listing (h : ∀ id ∈ ids, Listable id.name) :
    ∃ found, parseRegions (listing ids) index.keys = .ok found ∧ ∀ id, id ∈ found ↔ id ∈ ids := by
  have hnamed : ∀ id ∈ ids, id.name.toList ≠ [] ∧ Listable id.name := by
    intro id hid
    refine ⟨fun hnil => ?_, h id hid⟩
    have hempty := (RegionRow.allowed_of_index hindex (hsub hid)).1
    rw [String.toList_eq_nil_iff.1 hnil] at hempty
    exact absurd hempty (by decide)
  obtain ⟨hsome, htrim⟩ := trim_listing hne hnamed
  have hlisted := listed_listing hne hnamed
  have hlegible : Legible (listing ids) index.keys := by
    refine ⟨?_, .inr ?_⟩
    · rw [htrim, String.isEmpty_eq_false_iff]
      exact fun hempty => hsome (String.toList_eq_nil_iff.2 hempty)
    · rw [hlisted]
      exact List.forall_mem_map.2 fun id hid => ⟨id, hsub hid, rfl⟩
  obtain ⟨found, hfound⟩ := exists_parseRegions hlegible
  refine ⟨found, hfound, fun id => ?_⟩
  rw [(parseRegions_eq_ok hfound).2, Names, isAll_listing_eq_false hindex hne hsub h, hlisted]
  constructor
  · rintro ⟨-, hall | hmem⟩
    · cases hall
    · obtain ⟨id', hid', hname⟩ := List.mem_map.1 hmem
      obtain rfl : id' = id := congrArg Id.mk hname
      exact hid'
  · exact fun hid => ⟨hsub hid, .inr (List.mem_map_of_mem hid)⟩

end Accepted

/-- A list of accepted regions is read as naming exactly these regions if and only if each of them
has a name that can stand in a list, or the list is the word for all regions and names the only
one. -/
theorem parseRegions_listing_iff {α : Type} {rows : List RegionRow}
    {index : OrderedMap RegionId RegionRow} (hindex : RegionRow.index (α := α) rows = .ok index)
    (hne : ids ≠ []) (hsub : ids ⊆ index.keys) :
    (∃ found, parseRegions (listing ids) index.keys = .ok found ∧
        ∀ id, id ∈ found ↔ id ∈ ids) ↔
      (∀ id ∈ ids, Listable id.name) ∨
        ∃ id, ids = [id] ∧ isAll id.name = true ∧ index.keys = [id] := by
  constructor
  · rintro ⟨found, hfound, hids⟩
    by_cases hall : isAll (listing ids) = true
    · obtain ⟨id, rfl, hid⟩ := eq_singleton_of_isAll hne hall
      rw [parseRegions_of_isAll hall] at hfound
      cases hfound
      have hperm := (List.perm_ext_iff_of_nodup index.nodup (List.nodup_singleton id)).2 hids
      exact .inr ⟨id, rfl, hid, List.perm_singleton.1 hperm⟩
    · refine .inl fun id hid => ?_
      have hnamed := (((parseRegions_eq_ok hfound).2 id).1 ((hids id).2 hid)).2
      exact listable_of_mem_listed (hnamed.resolve_left hall)
  · rintro (hlistable | ⟨id, rfl, hall, hkeys⟩)
    · exact parseRegions_listing hindex hne hsub hlistable
    · rw [listing_singleton, hkeys]
      exact ⟨[id], parseRegions_of_isAll hall, fun _ => Iff.rfl⟩

/-- Regions with the names of a list. -/
def regionRows (names : List String) : List RegionRow :=
  names.map fun name => ⟨⟨name⟩, "", .partialEquilibrium⟩

/-- Two regions with names that can stand in a list are named by it, in whichever order. -/
theorem regionRows_listed :
    ∃ index, RegionRow.index (α := ℚ) (regionRows ["GBR", "USA"]) = .ok index ∧
      ∃ found, parseRegions (listing [⟨"USA"⟩, ⟨"GBR"⟩]) index.keys = .ok found ∧
        ∀ id, id ∈ found ↔ id ∈ [⟨"USA"⟩, ⟨"GBR"⟩] := by
  obtain ⟨index, hindex, -⟩ : ∃ index, RegionRow.index (α := ℚ) (regionRows ["GBR", "USA"]) =
      .ok index ∧ true = true := exists_eq_ok_of_any (by decide +kernel)
  have hkeys : index.keys = [⟨"GBR"⟩, ⟨"USA"⟩] := RegionRow.keys_index hindex
  refine ⟨index, hindex, (parseRegions_listing_iff hindex (List.cons_ne_nil _ _) ?_).2 (.inl ?_)⟩
  · rw [hkeys]
    decide
  · have hlistable : ∀ name ∈ ["USA", "GBR"], Listable name := by
      intro name hname
      refine ⟨Text.trimChars_eq_self_iff.1 ?_, ?_⟩ <;> revert name <;> decide +kernel
    simpa using hlistable

/-- A region is accepted under a name that ends in blank space, and its name is not read. -/
theorem paddedRegion_unreadable :
    ∃ index, RegionRow.index (α := ℚ) (regionRows ["A "]) = .ok index ∧
      index.keys = [⟨"A "⟩] ∧
      parseRegions (listing [⟨"A "⟩]) index.keys = .error (.unknown ⟨"A"⟩) := by
  obtain ⟨index, hindex, -⟩ : ∃ index, RegionRow.index (α := ℚ) (regionRows ["A "]) =
      .ok index ∧ true = true := exists_eq_ok_of_any (by decide +kernel)
  have hkeys : index.keys = [⟨"A "⟩] := RegionRow.keys_index hindex
  refine ⟨index, hindex, hkeys, ?_⟩
  rw [hkeys]
  decide +kernel

end Naming

end NestedLogit
