import NestedLogit.Model.CarbonTaxes
import NestedLogit.Proofs.Model.Listing
import NestedLogit.Proofs.Series.Expansion
import NestedLogit.Proofs.Series.Grouping

/-!
# Rows of carbon taxes

Rows are placed in the periods of their years if every policy keeps its regions, and grouped by
policy. What a group comes to is said in terms of the rows: a tax that is carried forward is that of
the row in force, and there is one if the policy has a row for the first year.

## Main definitions

- `CarbonTaxRow.GroupOf` — the rows of a policy, period by period
- `CarbonTaxRow.InForce` — the row of a policy that is in force in a period

## Main statements

- `CarbonTaxRow.exists_place_iff` — which rows are placed
- `CarbonTaxRow.nodup_places_iff` — which rows take different places
- `CarbonTaxRow.keys_groups`, `CarbonTaxRow.groupOf_of_mem` — the groups that rows make
- `CarbonTaxRow.GroupOf.expandable_taxes_iff`, `CarbonTaxRow.GroupOf.exists_inForce` — when the taxes
  of a group make a series, and which
- `CarbonTaxRow.listedRegions_eq_ok`, `CarbonTaxRow.exists_listedRegions` — the regions of a group
-/

namespace NestedLogit

variable {n : ℕ} {α : Type} {c : Calendar n} {regions : List RegionId}

namespace Calendar

theorem strictMono_year (c : Calendar n) : StrictMono c.year :=
  fun p q hpq => c.increasing p q hpq

theorem periodForYear_eq_ok {year : ℕ} {p : Fin n} :
    c.periodForYear year = .ok p ↔ c.year p = year := by
  unfold periodForYear periodOfYear?
  cases hfound : (List.finRange n).find? fun q => c.year q == year with
  | none =>
    refine iff_of_false (fun h => by cases h) fun hp => ?_
    exact List.find?_eq_none.1 hfound p (List.mem_finRange p) (beq_iff_eq.2 hp)
  | some q =>
    have hq : c.year q = year := by simpa using List.find?_some hfound
    rw [Except.ok.injEq]
    constructor
    · rintro rfl
      exact hq
    · intro hp
      exact c.strictMono_year.injective (hq.trans hp.symm)

end Calendar

namespace CarbonTaxRow

variable {rows : List (CarbonTaxRow α)} {placed : List (KeyedRow String (CarbonTaxRow α))}

/-- A row is placed under the name of its policy, in the period of its year. -/
def PlacedAt (c : Calendar n) (row : CarbonTaxRow α) (r : KeyedRow String (CarbonTaxRow α)) :
    Prop :=
  ∃ p : Fin n, c.year p = row.year ∧ r = ⟨row.policy, p, row⟩

section Placing

variable [Quantity α] {seen : List (String × String)}

/-- The first row is placed if its tax is finite, its year is one of the calendar and its policy has
no other regions yet, and then come the others. -/
theorem place_cons_eq_ok {row : CarbonTaxRow α} :
    place c seen (row :: rows) = .ok placed ↔
      Quantity.isFinite row.tax = true ∧
        (seen.lookup row.policy).getD row.regions = row.regions ∧
          ∃ r rest, placed = r :: rest ∧ PlacedAt c row r ∧
            place c (seen ++ [(row.policy, row.regions)]) rows = .ok rest := by
  constructor
  · intro h
    unfold place at h
    dsimp only at h
    split at h
    · cases h
    · next hfinite =>
      split at h
      · cases h
      · next hregions =>
        obtain ⟨p, hp, h⟩ := bind_eq_ok.1 h
        obtain ⟨rest, hrest, h⟩ := bind_eq_ok.1 h
        cases h
        have hyear : c.year p = row.year := Calendar.periodForYear_eq_ok.1 (mapError_eq_ok.1 hp)
        refine ⟨?_, not_not.1 hregions, _, rest, rfl, ⟨p, hyear, rfl⟩, hrest⟩
        simpa using hfinite
  · rintro ⟨hfinite, hregions, _, rest, rfl, ⟨p, hyear, rfl⟩, hrest⟩
    have hp : rowPeriod (α := α) c row.year = .ok p :=
      mapError_eq_ok.2 (Calendar.periodForYear_eq_ok.2 hyear)
    unfold place
    rw [hfinite, hregions, hp, hrest]
    simp only [Bool.not_true, Bool.false_eq_true, if_false, ne_eq, not_true]
    rfl

theorem forall₂_placed (h : place c seen rows = .ok placed) :
    List.Forall₂ (PlacedAt c) rows placed := by
  induction rows generalizing seen placed with
  | nil =>
    cases h
    exact .nil
  | cons row rest ih =>
    obtain ⟨-, -, r, others, rfl, hr, hothers⟩ := place_cons_eq_ok.1 h
    exact .cons hr (ih hothers)

theorem lookup_concat_eq_some {policy name text known : String} :
    (seen ++ [(name, text)]).lookup policy = some known ↔
      seen.lookup policy = some known ∨
        seen.lookup policy = none ∧ policy = name ∧ text = known := by
  rw [List.lookup_append, Option.or_eq_some_iff]
  refine or_congr_right (and_congr_right fun _ => ?_)
  rw [List.lookup_cons]
  split
  · next heq => simp [beq_iff_eq.1 heq]
  · next hne => simpa using fun h => absurd h (by simpa using hne)

/-- Rows are placed if their taxes are finite, their years are years of the calendar and each policy
has one text for its regions, which is the one it was seen with before. -/
theorem exists_place_iff :
    (∃ placed, place c seen rows = .ok placed) ↔
      (∀ row ∈ rows, Quantity.isFinite row.tax = true) ∧
        (∀ row ∈ rows, ∃ p : Fin n, c.year p = row.year) ∧
          ∃ text : String → String, (∀ row ∈ rows, row.regions = text row.policy) ∧
            ∀ policy known, seen.lookup policy = some known → known = text policy := by
  induction rows generalizing seen with
  | nil =>
    refine iff_of_true ⟨[], rfl⟩ ⟨by simp, by simp, fun policy => (seen.lookup policy).getD "", ?_⟩
    exact ⟨by simp, fun policy known hknown => by simp [hknown]⟩
  | cons row rest ih =>
    have hstep : (∃ placed, place c seen (row :: rest) = .ok placed) ↔
        Quantity.isFinite row.tax = true ∧
          (seen.lookup row.policy).getD row.regions = row.regions ∧
            (∃ p : Fin n, c.year p = row.year) ∧
              ∃ others, place c (seen ++ [(row.policy, row.regions)]) rest = .ok others := by
      simp only [place_cons_eq_ok]
      constructor
      · rintro ⟨_, hfinite, hregions, r, others, -, ⟨p, hyear, -⟩, hothers⟩
        exact ⟨hfinite, hregions, ⟨p, hyear⟩, others, hothers⟩
      · rintro ⟨hfinite, hregions, ⟨p, hyear⟩, others, hothers⟩
        exact ⟨_, hfinite, hregions, _, others, rfl, ⟨p, hyear, rfl⟩, hothers⟩
    rw [hstep, ih]
    simp only [List.forall_mem_cons, lookup_concat_eq_some]
    constructor
    · rintro ⟨hfinite, hregions, hyear, hfinites, hyears, text, htext, hseen⟩
      refine ⟨⟨hfinite, hfinites⟩, ⟨hyear, hyears⟩, text, ⟨?_, htext⟩, fun policy known hknown =>
        hseen policy known (.inl hknown)⟩
      cases hlookup : seen.lookup row.policy with
      | none => exact hseen _ _ (.inr ⟨hlookup, rfl, rfl⟩)
      | some known =>
        rw [hlookup, Option.getD_some] at hregions
        exact hregions ▸ hseen _ _ (.inl hlookup)
    · rintro ⟨⟨hfinite, hfinites⟩, ⟨hyear, hyears⟩, text, ⟨hrow, htext⟩, hseen⟩
      refine ⟨hfinite, ?_, hyear, hfinites, hyears, text, htext, ?_⟩
      · cases hlookup : seen.lookup row.policy with
        | none => rfl
        | some known => exact (hseen _ _ hlookup).trans hrow.symm
      · rintro policy known (hknown | ⟨-, rfl, rfl⟩)
        · exact hseen policy known hknown
        · exact hrow

end Placing

/-- Rows take different places exactly if no policy has two rows for a year. -/
theorem nodup_places_iff (h : List.Forall₂ (PlacedAt c) rows placed) :
    (placed.map KeyedRow.place).Nodup ↔ (rows.map fun row => (row.policy, row.year)).Nodup := by
  have hplaces : List.Forall₂
      (fun x y : String × ℕ => x.1 = y.1 ∧ ∃ p : Fin n, y.2 = p ∧ c.year p = x.2)
      (rows.map fun row => (row.policy, row.year)) (placed.map KeyedRow.place) := by
    rw [List.forall₂_map_left_iff, List.forall₂_map_right_iff]
    refine h.imp ?_
    rintro row _ ⟨p, hyear, rfl⟩
    exact ⟨rfl, p, rfl, hyear⟩
  refine (List.rel_nodup ⟨?_, ?_⟩ hplaces).symm
  · rintro x z y ⟨hx, p, hp, hxyear⟩ ⟨hz, q, hq, hzyear⟩
    obtain rfl : p = q := Fin.ext (hp.symm.trans hq)
    exact Prod.ext (hx.trans hz.symm) (hxyear.symm.trans hzyear)
  · rintro x y z ⟨hy, p, hp, hpyear⟩ ⟨hz, q, hq, hqyear⟩
    obtain rfl : p = q := c.strictMono_year.injective (hpyear.trans hqyear.symm)
    exact Prod.ext (hy.symm.trans hz) (hp.trans hq.symm)

/-- The rows of a policy: there is one, and they are given for the periods of their years. -/
structure GroupOf (c : Calendar n) (rows : List (CarbonTaxRow α)) (policy : String)
    (group : Sparse (CarbonTaxRow α)) : Prop where
  nonempty : group.entries ≠ []
  dated : ∀ row ∈ rows, ∃ p : Fin n, c.year p = row.year
  entry : ∀ period row, (period, row) ∈ group.entries ↔
    row ∈ rows ∧ row.policy = policy ∧ ∃ p : Fin n, period = p ∧ c.year p = row.year

section Grouped

variable {groups : Grouping String (CarbonTaxRow α)}
  (hplaced : List.Forall₂ (PlacedAt c) rows placed) (hgroups : Grouping.ofRows placed = .ok groups)
include hplaced hgroups

theorem keys_groups : groups.keys = (rows.map (·.policy)).eraseDups := by
  have hpolicies : rows.map (·.policy) = placed.map (·.key) :=
    map_eq_of_forall₂ hplaced fun ⟨_, _, hr⟩ => hr ▸ rfl
  rw [hpolicies]
  exact (Grouping.gathers_of_ofRows hgroups).keys

/-- Every group has the rows of its policy. -/
theorem groupOf_of_mem {e : String × Sparse (CarbonTaxRow α)} (he : e ∈ groups.entries) :
    GroupOf c rows e.1 e.2 := by
  have hgathers := Grouping.gathers_of_ofRows hgroups
  have hrow : ∀ r ∈ placed, ∃ row ∈ rows, PlacedAt c row r :=
    forall_mem_of_forall₂ hplaced fun row hrow _ hr => ⟨row, hrow, hr⟩
  have hentry : ∀ row ∈ rows, ∃ r ∈ placed, PlacedAt c row r :=
    forall_mem_of_forall₂ hplaced.flip fun r hr _ hrow => ⟨r, hr, hrow⟩
  constructor
  · have hkey : e.1 ∈ (placed.map (·.key)).eraseDups := hgathers.keys ▸ List.mem_map_of_mem he
    obtain ⟨r, hr, hkey⟩ := List.mem_map.1 (List.mem_eraseDups.1 hkey)
    refine List.ne_nil_of_mem (a := (r.period, r.row)) ((hgathers.mem_entries_iff he).2 ?_)
    exact hkey ▸ hr
  · intro row hmem
    obtain ⟨_, -, p, hyear, -⟩ := hentry row hmem
    exact ⟨p, hyear⟩
  · intro period row
    rw [hgathers.mem_entries_iff he]
    constructor
    · intro hr
      obtain ⟨row', hmem, p, hyear, heq⟩ := hrow _ hr
      obtain ⟨hkey, hperiod, rfl⟩ := KeyedRow.mk.inj heq
      exact ⟨hmem, hkey.symm, p, hperiod, hyear⟩
    · rintro ⟨hmem, hpolicy, p, rfl, hyear⟩
      obtain ⟨_, hr, q, hqyear, rfl⟩ := hentry row hmem
      obtain rfl : p = q := c.strictMono_year.injective (hyear.trans hqyear.symm)
      exact hpolicy ▸ hr

end Grouped

/-- The row of a policy that is in force in a period is its last one up to the period's year. -/
structure InForce (c : Calendar n) (rows : List (CarbonTaxRow α)) (policy : String) (p : Fin n)
    (row : CarbonTaxRow α) : Prop where
  mem : row ∈ rows
  policy_eq : row.policy = policy
  year_le : row.year ≤ c.year p
  last : ∀ row' ∈ rows, row'.policy = policy → row'.year ≤ c.year p → row'.year ≤ row.year

namespace GroupOf

variable {policy : String} {group : Sparse (CarbonTaxRow α)} (h : GroupOf c rows policy group)
include h

theorem mem_taxes_iff {e : ℕ × α} :
    e ∈ (group.filterMap fun row => some row.tax).entries ↔
      ∃ row ∈ rows, row.policy = policy ∧ row.tax = e.2 ∧
        ∃ p : Fin n, e.1 = p ∧ c.year p = row.year := by
  rw [Sparse.mem_entries_filterMap]
  simp only [h.entry, Option.some.injEq]
  constructor
  · rintro ⟨row, ⟨hrow, hpolicy, hp⟩, htax⟩
    exact ⟨row, hrow, hpolicy, htax, hp⟩
  · rintro ⟨row, hrow, hpolicy, htax, hp⟩
    exact ⟨row, ⟨hrow, hpolicy, hp⟩, htax⟩

/-- The taxes of a policy make a series exactly if there is one for the first year. -/
theorem expandable_taxes_iff :
    (group.filterMap fun row => some row.tax).Expandable ↔
      ∃ row ∈ rows, row.policy = policy ∧ row.year = c.year c.first := by
  constructor
  · rintro (hnone | ⟨v, hfirst⟩)
    · obtain ⟨⟨period, row⟩, hrow⟩ := List.exists_mem_of_ne_nil _ h.nonempty
      obtain ⟨hmem, hpolicy, hp⟩ := (h.entry _ _).1 hrow
      have hvalue := (h.mem_taxes_iff (e := (period, row.tax))).2 ⟨row, hmem, hpolicy, rfl, hp⟩
      exact absurd hvalue (hnone ▸ List.not_mem_nil)
    · obtain ⟨row, hmem, hpolicy, -, p, hp, hyear⟩ := h.mem_taxes_iff.1 hfirst
      obtain rfl : c.first = p := Fin.ext hp
      exact ⟨row, hmem, hpolicy, hyear.symm⟩
  · rintro ⟨row, hmem, hpolicy, hyear⟩
    exact .inr ⟨row.tax, h.mem_taxes_iff.2 ⟨row, hmem, hpolicy, rfl, c.first, rfl, hyear.symm⟩⟩

/-- The tax of a policy that is carried forward is that of the row in force. -/
theorem exists_inForce {default : α} {tax : Series n α}
    (htax : (group.filterMap fun row => some row.tax).Carried default tax) (k : Fin n) :
    ∃ row, InForce c rows policy k row ∧ tax[k] = row.tax := by
  rcases htax k with ⟨hnone, -⟩ | ⟨e, he, hk⟩
  · obtain ⟨⟨period, row⟩, hrow⟩ := List.exists_mem_of_ne_nil _ h.nonempty
    obtain ⟨hmem, hpolicy, hp⟩ := (h.entry _ _).1 hrow
    have hvalue := (h.mem_taxes_iff (e := (period, row.tax))).2 ⟨row, hmem, hpolicy, rfl, hp⟩
    exact absurd hvalue (hnone ▸ List.not_mem_nil)
  · obtain ⟨row, hmem, hpolicy, htax, p, hp, hyear⟩ := h.mem_taxes_iff.1 he.mem
    refine ⟨row, ⟨hmem, hpolicy, ?_, fun row' hmem' hpolicy' hle => ?_⟩, hk.trans htax.symm⟩
    · rw [← hyear]
      exact c.year_mono (Fin.le_def.2 (hp ▸ he.le))
    · obtain ⟨q, hq⟩ := h.dated row' hmem'
      have hvalue := (h.mem_taxes_iff (e := (q.val, row'.tax))).2
        ⟨row', hmem', hpolicy', rfl, q, rfl, hq⟩
      have hqk : q ≤ k := c.strictMono_year.le_iff_le.1 (hq ▸ hle)
      have hqp : q ≤ p := Fin.le_def.2 (hp ▸ he.last _ hvalue hqk)
      rw [← hq, ← hyear]
      exact c.year_mono hqp

end GroupOf

section Regions

variable {group : Sparse (CarbonTaxRow α)} {listed : Option (List RegionId)}
  {e : ℕ × CarbonTaxRow α} {others : List (ℕ × CarbonTaxRow α)}

/-- The regions of a policy are those that the text of its first row names. -/
theorem listedRegions_eq_ok (hentries : group.entries = e :: others)
    (h : listedRegions regions group = .ok listed) :
    Naming.Legible e.2.regions regions ∧
      ∀ id, id ∈ listed.getD regions ↔ id ∈ regions ∧ Naming.Names e.2.regions id := by
  unfold listedRegions at h
  simp only [hentries, List.head?_cons, Option.map_some, Option.getD_some] at h
  split at h
  · next hall =>
    cases h
    exact Naming.parseRegions_eq_ok (Naming.parseRegions_of_isAll hall)
  · obtain ⟨ids, hids, rfl⟩ := map_eq_ok.1 h
    exact Naming.parseRowRegions_eq_ok (mapError_eq_ok.1 hids)

theorem exists_listedRegions (hentries : group.entries = e :: others)
    (h : Naming.Legible e.2.regions regions) :
    ∃ listed, listedRegions regions group = .ok listed := by
  unfold listedRegions
  simp only [hentries, List.head?_cons, Option.map_some, Option.getD_some]
  split
  · exact ⟨none, rfl⟩
  · obtain ⟨found, hfound⟩ := Naming.exists_parseRegions h
    rw [hfound]
    exact ⟨_, rfl⟩

end Regions

end CarbonTaxRow

end NestedLogit
