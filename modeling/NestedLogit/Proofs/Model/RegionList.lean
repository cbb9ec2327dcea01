import NestedLogit.Proofs.Except
import NestedLogit.Proofs.Id
import NestedLogit.Region.Names

/-!
# What lists of regions name

A list of regions stands for the regions that it names, out of those there are, whatever their order
and however often it names them. It is not accepted if it is blank or names a region there is not.

## Main definitions

- `Naming.Names` — that a text names a region
- `Naming.Legible` — that a text names regions, and only such as there are

## Main statements

- `Naming.parseRowRegions_eq_ok` — a row applies to the regions that its text names
-/

namespace NestedLogit.Naming

/-- The names between the semicolons of a text. -/
def listed (text : String) : List String :=
  (Text.cut ';' (Text.trim text).toList).map fun part => String.ofList (Text.trimChars part)

/-- Whether a text is the word for all regions, but for blank space around it. -/
def isAll (text : String) : Bool :=
  isAllRegions (Text.trim text)

/-- A text names a region by the word for all regions or by the region's name. -/
def Names (text : String) (id : RegionId) : Prop :=
  isAll text = true ∨ id.name ∈ listed text

instance (text : String) : DecidablePred (Names text) :=
  fun _ => inferInstanceAs (Decidable (_ ∨ _))

/-- A text that is not blank and lists no name without a region. -/
structure Legible (text : String) (regions : List RegionId) : Prop where
  not_blank : (Text.trim text).isEmpty = false
  known : isAll text = true ∨ ∀ name ∈ listed text, ∃ id ∈ regions, id.name = name

variable {text : String} {regions ids : List RegionId}

theorem mapM_find_eq_ok {parts : List (List Char)}
    (h : (parts.mapM fun part => Id.find regions (String.ofList (Text.trimChars part))) = .ok ids) :
    (∀ part ∈ parts, ∃ id ∈ regions, id.name = String.ofList (Text.trimChars part)) ∧
      ∀ id, id ∈ ids ↔
        id ∈ regions ∧ id.name ∈ parts.map fun part => String.ofList (Text.trimChars part) := by
  have hfound := mapM_eq_ok.1 h
  clear h
  induction hfound with
  | nil => exact ⟨by simp, by simp⟩
  | @cons part id' parts ids hfind _ ih =>
    obtain ⟨hmem, hname⟩ := Id.find_eq_ok.1 hfind
    refine ⟨List.forall_mem_cons.2 ⟨⟨id', hmem, hname⟩, ih.1⟩, fun id => ?_⟩
    rw [List.mem_cons, ih.2, List.map_cons, List.mem_cons]
    constructor
    · rintro (rfl | ⟨hid, hrest⟩)
      · exact ⟨hmem, .inl hname⟩
      · exact ⟨hid, .inr hrest⟩
    · rintro ⟨hid, hhead | hrest⟩
      · exact .inl (congrArg Id.mk (hhead.trans hname.symm))
      · exact .inr ⟨hid, hrest⟩

theorem parseRegions_eq_ok (h : parseRegions text regions = .ok ids) :
    Legible text regions ∧ ∀ id, id ∈ ids ↔ id ∈ regions ∧ Names text id := by
  unfold parseRegions at h
  dsimp only at h
  split at h
  · cases h
  · next hblank =>
    have hblank := Bool.eq_false_iff.2 hblank
    split at h
    · next hall =>
      cases h
      exact ⟨⟨hblank, .inl hall⟩, fun id => (and_iff_left (.inl hall)).symm⟩
    · next hall =>
      obtain ⟨hknown, hids⟩ := mapM_find_eq_ok (mapError_eq_ok.1 h)
      refine ⟨⟨hblank, .inr (List.forall_mem_map.2 hknown)⟩, fun id => ?_⟩
      rw [hids, Names, isAll, or_iff_right hall]
      rfl

/-- A row applies to the regions that its text names. -/
theorem parseRowRegions_eq_ok (h : parseRowRegions text regions = .ok ids) :
    Legible text regions ∧ ∀ id, id ∈ ids ↔ id ∈ regions ∧ Names text id := by
  obtain ⟨parsed, hparsed, rfl⟩ := map_eq_ok.1 h
  obtain ⟨hlegible, hids⟩ := parseRegions_eq_ok hparsed
  exact ⟨hlegible, fun id => Id.mem_sorted.trans (hids id)⟩

end NestedLogit.Naming
