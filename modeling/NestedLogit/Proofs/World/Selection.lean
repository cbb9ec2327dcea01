import Mathlib.Data.List.Sort
import NestedLogit.Proofs.Except
import NestedLogit.Proofs.History.Repetition
import NestedLogit.Proofs.Id
import NestedLogit.World

/-!
# Calculating some of the regions

A world can be calculated a few regions at a time. Which regions a calculation is for is said by a
list of names, in any order, with repetitions and with names of no region; a list without names
stands for all regions. However the regions are divided up, and however often one of them is named,
the result is that of one calculation of all of them.

## Main definitions

- `World.Built` — worlds that are put together from regions
- `World.SameUnlessIn` — regions that do not differ unless they are named
- `World.calculateInTurn` — one calculation after another, each for the regions in a list

## Main statements

- `World.Built.nodup_regionIds` — no two regions of a world have the same name
- `World.mem_selection` — the positions that a calculation is for are those of the regions named
- `World.regions_calculateInTurn` — what is left by calculations that come to their ends
- `World.calculateInTurn_confluent` — calculations that name every region, in whatever order
-/

namespace NestedLogit

namespace World

variable {n : Nat} {α : Type} {p : Fin n} {w w' : World n α}

/-- Worlds that are put together from regions, all at once or one after another. -/
inductive Built : World n α → Prop
  | ofRegions {calendar : Calendar n} {regions : List (Region n α)} {w : World n α}
      (h : World.ofRegions calendar regions = .ok w) : Built w
  | addRegion {w w' : World n α} {r : Region n α} (hw : Built w) (h : w.addRegion r = .ok w') :
      Built w'

theorem checkRegions_cons (seen : List RegionId) (r : Region n α) (rest : List (Region n α)) :
    checkRegions seen (r :: rest) =
      if r.id ∈ seen then .error ⟨r.id⟩ else checkRegions (r.id :: seen) rest := rfl

theorem checkRegions_eq_ok {seen : List RegionId} {regions : List (Region n α)}
    (h : checkRegions seen regions = .ok ()) :
    (regions.map (·.id)).Nodup ∧ ∀ r ∈ regions, r.id ∉ seen := by
  induction regions generalizing seen with
  | nil => exact ⟨.nil, by simp⟩
  | cons r rest ih =>
    rw [checkRegions_cons] at h
    by_cases hr : r.id ∈ seen
    · rw [if_pos hr] at h
      cases h
    · rw [if_neg hr] at h
      obtain ⟨hnodup, hseen⟩ := ih h
      have hrest : r.id ∉ rest.map (·.id) := by
        intro hmem
        obtain ⟨s, hs, hid⟩ := List.mem_map.1 hmem
        exact hseen s hs (hid ▸ List.mem_cons_self)
      refine ⟨List.nodup_cons.2 ⟨hrest, hnodup⟩, List.forall_mem_cons.2 ⟨hr, ?_⟩⟩
      intro s hs hmem
      exact hseen s hs (List.mem_cons_of_mem _ hmem)

theorem checkRegions_eq_ok_of_nodup {seen : List RegionId} {regions : List (Region n α)}
    (hnodup : (regions.map (·.id)).Nodup) (hseen : ∀ r ∈ regions, r.id ∉ seen) :
    checkRegions seen regions = .ok () := by
  induction regions generalizing seen with
  | nil => rfl
  | cons r rest ih =>
    obtain ⟨hr, hnodup⟩ := List.nodup_cons.1 hnodup
    obtain ⟨hnew, hrest⟩ := List.forall_mem_cons.1 hseen
    rw [checkRegions_cons, if_neg hnew]
    apply ih hnodup
    intro s hs hmem
    rcases List.mem_cons.1 hmem with hsame | hmem
    · exact hr (List.mem_map.2 ⟨s, hs, hsame⟩)
    · exact hrest s hs hmem

/-- A region that is added has a name that no other region has. -/
theorem addRegion_eq_ok {r : Region n α} (h : w.addRegion r = .ok w') :
    w' = { w with regions := w.regions ++ [r] } ∧ r.id ∉ w.regionIds := by
  unfold addRegion at h
  split at h
  · cases h
  · next hnone =>
    cases h
    refine ⟨rfl, fun hmem => hnone ?_⟩
    obtain ⟨s, hs, hid⟩ := List.mem_map.1 hmem
    rw [region?, List.find?_isSome]
    exact ⟨s, hs, by simpa using hid⟩

/-- No two regions of a world have the same name. -/
theorem Built.nodup_regionIds (hw : w.Built) : w.regionIds.Nodup := by
  induction hw with
  | ofRegions h =>
    obtain ⟨_, hcheck, hworld⟩ := bind_eq_ok.1 h
    cases hworld
    exact (checkRegions_eq_ok hcheck).1
  | addRegion _ h ih =>
    obtain ⟨rfl, hr⟩ := addRegion_eq_ok h
    rw [regionIds, List.map_append, List.nodup_append']
    exact ⟨ih, List.nodup_singleton _, List.disjoint_singleton.2 hr⟩

/-- Regions of the same name that do not differ unless the name is among some. -/
structure SameUnlessIn (named : List RegionId) (r r' : Region n α) : Prop where
  id : r.id = r'.id
  same : r.id ∉ named → r' = r

namespace SameUnlessIn

variable {named named' : List RegionId} {r r' r'' : Region n α}

theorem refl (named : List RegionId) (r : Region n α) : SameUnlessIn named r r :=
  ⟨rfl, fun _ => rfl⟩

theorem trans (h : SameUnlessIn named r r') (h' : SameUnlessIn named r' r'') :
    SameUnlessIn named r r'' := by
  refine ⟨h.id.trans h'.id, fun hr => ?_⟩
  rw [h'.same (h.id ▸ hr), h.same hr]

theorem mono (hsub : named ⊆ named') (h : SameUnlessIn named r r') : SameUnlessIn named' r r' :=
  ⟨h.id, fun hr => h.same fun hmem => hr (hsub hmem)⟩

end SameUnlessIn

section Positions

theorem position?_eq_some (hw : w.regionIds.Nodup) {id : RegionId} {j : Nat} :
    w.position? id = some j ↔ ∃ hj : j < w.regions.length, w.regions[j].id = id := by
  rw [position?, List.findIdx?_eq_some_iff_getElem]
  simp only [decide_eq_true_eq]
  constructor
  · rintro ⟨hj, hid, -⟩
    exact ⟨hj, hid⟩
  · rintro ⟨hj, hid⟩
    refine ⟨hj, hid, fun i hi hsame => ?_⟩
    have hlength : w.regionIds.length = w.regions.length := List.length_map _
    have hj' : j < w.regionIds.length := by omega
    have hi' : i < w.regionIds.length := by omega
    have heq : w.regionIds[i] = w.regionIds[j] := by
      simp only [regionIds, List.getElem_map]
      rw [hsame, hid]
    have hij := (List.Nodup.getElem_inj_iff hw).1 heq
    omega

/-- A calculation is for the positions of the regions named, or for all positions if none is. -/
theorem mem_selection (hw : w.regionIds.Nodup) (ids : List RegionId) (j : Nat) :
    j ∈ w.selection ids ↔
      ∃ hj : j < w.regions.length, ids = [] ∨ w.regions[j].id ∈ ids := by
  unfold selection
  by_cases hids : ids = []
  · subst hids
    simp
  · rw [if_neg (by simpa using hids), mem_eraseReps, List.mem_mergeSort, List.mem_filterMap]
    simp only [position?_eq_some hw, hids, false_or]
    constructor
    · rintro ⟨id, hid, hj, rfl⟩
      exact ⟨hj, hid⟩
    · rintro ⟨hj, hid⟩
      exact ⟨_, hid, hj, rfl⟩

end Positions

variable [Quantity α]

/-- The calculation of a region in a world that is calculated for some regions. -/
def calculateNamed (p : Fin n) (calibrate : Bool) (ids : List RegionId) (r : Region n α) :
    Run α (Region n α) :=
  if ids.isEmpty || ids.contains r.id then
    (r.calculate p calibrate).within (.calculatingRegion r.id)
  else .ok r

theorem isEmpty_or_contains_iff {ids : List RegionId} {id : RegionId} :
    (ids.isEmpty || ids.contains id) = true ↔ ids = [] ∨ id ∈ ids := by
  rw [Bool.or_eq_true, List.isEmpty_iff, List.contains_iff_mem]

theorem calculateNamed_of_named {ids : List RegionId} {r : Region n α} (h : ids = [] ∨ r.id ∈ ids)
    (p : Fin n) (calibrate : Bool) :
    calculateNamed p calibrate ids r =
      (r.calculate p calibrate).within (.calculatingRegion r.id) :=
  if_pos (isEmpty_or_contains_iff.2 h)

theorem calculateNamed_of_not_named {ids : List RegionId} {r : Region n α}
    (h : ¬(ids = [] ∨ r.id ∈ ids)) (p : Fin n) (calibrate : Bool) :
    calculateNamed p calibrate ids r = .ok r :=
  if_neg fun hn => h (isEmpty_or_contains_iff.1 hn)

/-- A calculation of the regions at some positions, as far as the positions are those of the regions
named. -/
theorem calculateAt_eq_each {calibrate : Bool} {positions : List Nat} {ids : List RegionId}
    {i : Nat} {regions : List (Region n α)}
    (h : ∀ (j : Nat) (hj : j < regions.length),
      i + j ∈ positions ↔ ids = [] ∨ regions[j].id ∈ ids) :
    calculateAt p calibrate positions i regions =
      Run.each (calculateNamed p calibrate ids) regions := by
  induction regions generalizing i with
  | nil => rfl
  | cons r rest ih =>
    have hr : i ∈ positions ↔ ids = [] ∨ r.id ∈ ids := h 0 (Nat.zero_lt_succ _)
    have hrest := ih (i := i + 1) fun j hj => by
      rw [Nat.add_assoc, Nat.add_comm 1 j]
      exact h (j + 1) (Nat.succ_lt_succ hj)
    have hone : (if i ∈ positions then (r.calculate p calibrate).within (.calculatingRegion r.id)
        else Run.ok r) = calculateNamed p calibrate ids r :=
      if_congr (hr.trans isEmpty_or_contains_iff.symm) rfl rfl
    rw [calculateAt, hone, hrest]
    dsimp only
    cases hf : (calculateNamed p calibrate ids r).failure with
    | none => rw [Run.each_cons_of_none hf]
    | some e => rw [Run.each_cons_of_some hf]

theorem calculate_eq (hw : w.regionIds.Nodup) (p : Fin n) (ids : List RegionId) :
    w.calculate p ids =
      ((Run.each (calculateNamed p w.calibrate ids) w.regions).map fun regions =>
        { w with calculations := w.calculations + 1, regions }).after (w.skipped ids) := by
  have heach : calculateAt p w.calibrate (w.selection ids) 0 w.regions =
      Run.each (calculateNamed p w.calibrate ids) w.regions := by
    apply calculateAt_eq_each
    intro j hj
    rw [Nat.zero_add, mem_selection hw]
    exact ⟨fun ⟨_, h⟩ => h, fun h => ⟨hj, h⟩⟩
  unfold calculate inPeriod
  simp only [Calendar.checkPeriod_val]
  rw [← heach]
  rfl

theorem failure_calculateNamed {calibrate : Bool} {ids : List RegionId} {r : Region n α} :
    (calculateNamed p calibrate ids r).failure = none ↔
      (ids = [] ∨ r.id ∈ ids → (r.calculate p calibrate).failure = none) := by
  by_cases h : ids = [] ∨ r.id ∈ ids
  · rw [calculateNamed_of_named h, Run.failure_within, imp_iff_right h]
  · rw [calculateNamed_of_not_named h]
    exact iff_of_true rfl fun hn => absurd hn h

/-- A calculation leaves alone the regions that it is not for, however it ends. -/
theorem sameUnlessIn_calculate (hw : w.regionIds.Nodup) (p : Fin n) {ids : List RegionId}
    (hids : ids ≠ []) :
    List.Forall₂ (SameUnlessIn ids) w.regions (w.calculate p ids).state.regions := by
  rw [calculate_eq hw]
  refine Run.forall₂_state_each (SameUnlessIn.refl ids) ?_ w.regions
  intro r
  by_cases hr : r.id ∈ ids
  · rw [calculateNamed_of_named (.inr hr)]
    exact ⟨(r.framed_calculate p _).id, fun hnot => absurd hr hnot⟩
  · rw [calculateNamed_of_not_named (not_or.2 ⟨hids, hr⟩)]
    exact .refl ids r

theorem nodup_calculate (hw : w.regionIds.Nodup) (p : Fin n) {ids : List RegionId}
    (hids : ids ≠ []) : (w.calculate p ids).state.regionIds.Nodup := by
  have hsame : w.regionIds = (w.calculate p ids).state.regionIds :=
    map_eq_of_forall₂ (sameUnlessIn_calculate hw p hids) fun h => h.id
  exact hsame ▸ hw

theorem calibrate_calculate (hw : w.regionIds.Nodup) (p : Fin n) (ids : List RegionId) :
    (w.calculate p ids).state.calibrate = w.calibrate := by
  rw [calculate_eq hw]
  rfl

/-- What a region is once those of some names are calculated. -/
def calculatedIn (p : Fin n) (calibrate : Bool) (named : List RegionId) (r : Region n α) :
    Region n α :=
  if named.contains r.id then (r.calculate p calibrate).state else r

theorem calculatedIn_of_mem {named : List RegionId} {r : Region n α} (h : r.id ∈ named) (p : Fin n)
    (calibrate : Bool) : calculatedIn p calibrate named r = (r.calculate p calibrate).state :=
  if_pos (List.contains_iff_mem.2 h)

theorem calculatedIn_of_not_mem {named : List RegionId} {r : Region n α} (h : r.id ∉ named)
    (p : Fin n) (calibrate : Bool) : calculatedIn p calibrate named r = r :=
  if_neg fun hmem => h (List.contains_iff_mem.1 hmem)

/-- Being calculated a second time makes no difference, and neither does the order. -/
theorem calculatedIn_calculatedIn {calibrate : Bool} {ids named : List RegionId} {r : Region n α}
    (h : r.id ∈ ids → (r.calculate p calibrate).failure = none) :
    calculatedIn p calibrate named (calculatedIn p calibrate ids r) =
      calculatedIn p calibrate (ids ++ named) r := by
  by_cases hr : r.id ∈ ids
  · rw [calculatedIn_of_mem hr, calculatedIn_of_mem (List.mem_append_left _ hr)]
    have hid := (r.framed_calculate p calibrate).id
    by_cases hr' : r.id ∈ named
    · rw [calculatedIn_of_mem (hid ▸ hr'), (Region.calculate_calculate (h hr)).2]
    · rw [calculatedIn_of_not_mem (hid ▸ hr')]
  · rw [calculatedIn_of_not_mem hr]
    by_cases hr' : r.id ∈ named
    · rw [calculatedIn_of_mem hr', calculatedIn_of_mem (List.mem_append_right _ hr')]
    · rw [calculatedIn_of_not_mem hr', calculatedIn_of_not_mem]
      rw [List.mem_append, not_or]
      exact ⟨hr, hr'⟩

/-- A calculation that comes to its end calculates the regions named. -/
theorem regions_calculate (hw : w.regionIds.Nodup) {ids : List RegionId} (hids : ids ≠ [])
    (h : (w.calculate p ids).failure = none) :
    (∀ r ∈ w.regions, r.id ∈ ids → (r.calculate p w.calibrate).failure = none) ∧
      (w.calculate p ids).state.regions = w.regions.map (calculatedIn p w.calibrate ids) := by
  rw [calculate_eq hw] at h ⊢
  constructor
  · intro r hr hid
    exact failure_calculateNamed.1 (Run.failure_each.1 h r hr) (.inr hid)
  · refine (Run.state_each h).trans (List.map_congr_left fun r _ => ?_)
    by_cases hr : r.id ∈ ids
    · rw [calculateNamed_of_named (.inr hr), calculatedIn_of_mem hr]
      rfl
    · rw [calculateNamed_of_not_named (not_or.2 ⟨hids, hr⟩), calculatedIn_of_not_mem hr]
      rfl

/-- One calculation after another, each for the regions in a list. The first that stops ends them
all. -/
def calculateInTurn (period : Nat) : List (List RegionId) → World n α → Run α (World n α)
  | [], w => .ok w
  | ids :: rest, w => (w.calculate period ids).andThen (calculateInTurn period rest)

/-- Regions that no list names are left alone, however the calculations end. -/
theorem sameUnlessIn_calculateInTurn (hw : w.regionIds.Nodup) (p : Fin n)
    {selections : List (List RegionId)} (hne : [] ∉ selections) :
    List.Forall₂ (SameUnlessIn selections.flatten) w.regions
      (w.calculateInTurn p selections).state.regions := by
  induction selections generalizing w with
  | nil => exact List.forall₂_same.2 fun r _ => .refl _ r
  | cons ids rest ih =>
    obtain ⟨hids, hrest⟩ := List.ne_and_not_mem_of_not_mem_cons hne
    have hids := hids.symm
    have hstep : List.Forall₂ (SameUnlessIn (ids :: rest).flatten) w.regions
        (w.calculate p ids).state.regions :=
      (sameUnlessIn_calculate hw p hids).imp fun _ _ h => h.mono (List.subset_append_left _ _)
    rw [calculateInTurn]
    cases hf : (w.calculate p ids).failure with
    | some e =>
      rw [Run.andThen_of_some hf]
      exact hstep
    | none =>
      rw [Run.state_andThen hf]
      have hlater : List.Forall₂ (SameUnlessIn (ids :: rest).flatten)
          (w.calculate p ids).state.regions _ :=
        (ih (nodup_calculate hw p hids) hrest).imp fun _ _ h =>
          h.mono (List.subset_append_right _ _)
      exact forall₂_trans (fun h h' => h.trans h') hstep hlater

/-- Calculations that come to their ends calculate the regions that are named in any list. -/
theorem regions_calculateInTurn (hw : w.regionIds.Nodup) {selections : List (List RegionId)}
    (hne : [] ∉ selections) (h : (w.calculateInTurn p selections).failure = none) :
    (∀ r ∈ w.regions, r.id ∈ selections.flatten → (r.calculate p w.calibrate).failure = none) ∧
      (w.calculateInTurn p selections).state.regions =
        w.regions.map (calculatedIn p w.calibrate selections.flatten) := by
  induction selections generalizing w with
  | nil =>
    have hnone : calculatedIn (α := α) p w.calibrate [] = id := by
      funext r
      exact calculatedIn_of_not_mem List.not_mem_nil p w.calibrate
    rw [List.flatten_nil, hnone, List.map_id]
    exact ⟨fun _ _ hid => absurd hid List.not_mem_nil, rfl⟩
  | cons ids rest ih =>
    obtain ⟨hids, hrest⟩ := List.ne_and_not_mem_of_not_mem_cons hne
    have hids := hids.symm
    obtain ⟨hfirst, hlater⟩ := Run.failure_andThen.1 h
    obtain ⟨hnamed, hregions⟩ := regions_calculate hw hids hfirst
    obtain ⟨hnamed', hregions'⟩ := ih (nodup_calculate hw p hids) hrest hlater
    rw [calibrate_calculate hw, hregions] at hnamed' hregions'
    rw [List.flatten_cons]
    constructor
    · intro r hr hid
      -- What the first list does not name comes to the rest of the lists as it was.
      by_cases hmem : r.id ∈ ids
      · exact hnamed r hr hmem
      · have hr' := hnamed' (calculatedIn p w.calibrate ids r) (List.mem_map_of_mem hr)
        rw [calculatedIn_of_not_mem hmem] at hr'
        exact hr' ((List.mem_append.1 hid).resolve_left hmem)
    · rw [calculateInTurn, Run.state_andThen hfirst, hregions', List.map_map]
      exact List.map_congr_left fun r hr => calculatedIn_calculatedIn (hnamed r hr)

/-- Calculations for lists of regions that name every region come to what a single calculation of
all regions comes to, in whatever order, with whatever overlaps, and whatever else they name. A
region that is in none of the lists so far is still what it was. -/
theorem calculateInTurn_confluent (hw : w.Built) (p : Fin n) {selections : List (List RegionId)}
    (hne : [] ∉ selections) (hall : ∀ id ∈ w.regionIds, ∃ ids ∈ selections, id ∈ ids)
    (h : (w.calculateInTurn p selections).failure = none) :
    (w.calculate p []).failure = none ∧
      (w.calculateInTurn p selections).state.regions = (w.calculate p []).state.regions ∧
      ∀ done, done <+: selections →
        List.Forall₂ (fun r r' => (∀ ids ∈ done, r.id ∉ ids) → r' = r) w.regions
          (w.calculateInTurn p done).state.regions := by
  have hids := hw.nodup_regionIds
  obtain ⟨hnamed, hregions⟩ := regions_calculateInTurn hids hne h
  have hflatten : ∀ r ∈ w.regions, r.id ∈ selections.flatten := fun r hr =>
    List.mem_flatten.2 (hall r.id (List.mem_map_of_mem hr))
  have hfull : (Run.each (calculateNamed p w.calibrate []) w.regions).failure = none :=
    Run.failure_each.2 fun r hr =>
      failure_calculateNamed.2 fun _ => hnamed r hr (hflatten r hr)
  refine ⟨?_, ?_, ?_⟩
  · rw [calculate_eq hids]
    exact hfull
  · rw [hregions, calculate_eq hids]
    refine Eq.trans (List.map_congr_left fun r hr => ?_) (Run.state_each hfull).symm
    rw [calculatedIn_of_mem (hflatten r hr), calculateNamed_of_named (.inl rfl)]
    rfl
  · intro done hdone
    have hsame := sameUnlessIn_calculateInTurn hids p fun hmem => hne (hdone.subset hmem)
    refine hsame.imp fun r r' hr hnot => hr.same fun hmem => ?_
    obtain ⟨ids, hin, hid⟩ := List.mem_flatten.1 hmem
    exact hnot ids hin hid

/-- The island under another name. -/
def islandNamed (name : String) : Region 1 ℚ :=
  { Region.freshIsland with id := ⟨name⟩ }

/-- The calendar of a single year. -/
def singleYear : Calendar 1 where
  years := Series.const 1 2020
  nonempty := by decide
  increasing := by decide

/-- A world of islands. -/
def archipelago (names : List String) : World 1 ℚ where
  calendar := singleYear
  regions := names.map islandNamed
  calibrate := true
  calculations := 0
  climate := none

theorem built_archipelago : (archipelago ["north", "south"]).Built :=
  have hnorth : ofRegions singleYear [islandNamed "north"] = .ok (archipelago ["north"]) := rfl
  have hsouth : (archipelago ["north"]).addRegion (islandNamed "south")
      = .ok (archipelago ["north", "south"]) := rfl
  .addRegion (.ofRegions hnorth) hsouth

/-- Lists that name two islands, in another order, repeatedly, and among places that are none. -/
def voyages : List (List RegionId) :=
  [[⟨"south"⟩, ⟨"atlantis"⟩, ⟨"south"⟩], [⟨"atlantis"⟩], [⟨"north"⟩, ⟨"south"⟩]]

theorem archipelago_confluent :
    let w := archipelago ["north", "south"]
    (w.Built ∧ [] ∉ voyages ∧ (∀ id ∈ w.regionIds, ∃ ids ∈ voyages, id ∈ ids) ∧
        (w.calculateInTurn 0 voyages).failure = none) ∧
      (w.calculate 0 []).failure = none ∧
      (w.calculateInTurn 0 voyages).state.regions = (w.calculate 0 []).state.regions ∧
      ∀ done, done <+: voyages →
        List.Forall₂ (fun r r' => (∀ ids ∈ done, r.id ∉ ids) → r' = r) w.regions
          (w.calculateInTurn 0 done).state.regions := by
  intro w
  have hne : [] ∉ voyages := by decide
  have hall : ∀ id ∈ w.regionIds, ∃ ids ∈ voyages, id ∈ ids := by decide
  have hrun : (w.calculateInTurn 0 voyages).failure = none := by
    simp only [voyages, calculateInTurn, calculate, selection, List.mergeSort_eq_insertionSort]
    decide +kernel
  exact ⟨⟨built_archipelago, hne, hall, hrun⟩,
    calculateInTurn_confluent built_archipelago 0 hne hall hrun⟩

end World

end NestedLogit
