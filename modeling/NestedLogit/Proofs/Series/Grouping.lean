import NestedLogit.Model.Placement
import NestedLogit.Proofs.Except
import NestedLogit.Proofs.Market
import NestedLogit.Proofs.Pointwise
import NestedLogit.Proofs.Series.Sparse

/-!
# Groups of rows

Grouping loses no row and makes none up: every row is in the group of its key, for the period that
it was placed at, and the groups stand in the order in which their keys first appear. Rows are
refused only if two of them have the same place.

## Main definitions

- `Grouping.Gathers` — that a grouping has the rows of a list and no others
- `Grouping.FirstRepeated` — the key of the first row whose place is taken

## Main statements

- `Grouping.Gathers.add` — one row that is added
- `Grouping.Gathers.addRows_cases` — all rows, or those before the first that is refused
- `Grouping.ofRows_lossless` — what becomes of rows that are grouped
- `groupRows_eq_ok` — what is made of groups is made of rows
-/

namespace NestedLogit

variable {ε κ μ ρ σ : Type}

/-- A member at the end counts if it did not appear before. -/
theorem eraseDups_concat [DecidableEq κ] (xs : List κ) (x : κ) :
    (xs ++ [x]).eraseDups = if x ∈ xs.eraseDups then xs.eraseDups else xs.eraseDups ++ [x] := by
  rw [List.eraseDups_append, List.removeAll]
  by_cases hx : x ∈ xs
  · rw [if_pos (List.mem_eraseDups.2 hx), List.filter_cons_of_neg (by simpa using hx),
      List.filter_nil, List.eraseDups_nil, List.append_nil]
  · rw [if_neg fun h => hx (List.mem_eraseDups.1 h), List.filter_cons_of_pos (by simpa using hx)]
    rfl

/-- The entity and the period that a row is for. -/
def KeyedRow.place (r : KeyedRow κ ρ) : κ × Nat :=
  (r.key, r.period)

variable [DecidableEq κ]

namespace Grouping

variable {g g' : Grouping κ ρ} {rows done : List (KeyedRow κ ρ)} {r : KeyedRow κ ρ} {key : κ}

/-- The row that an entity has for a period. -/
def row? (g : Grouping κ ρ) (key : κ) (period : Nat) : Option ρ :=
  (g.get? key).bind (·.get? period)

/-- A grouping has the rows of a list and no others, each under its key and for its period. Its keys
are in the order in which they first appear. -/
structure Gathers (g : Grouping κ ρ) (rows : List (KeyedRow κ ρ)) : Prop where
  keys : g.keys = (rows.map (·.key)).eraseDups
  row : ∀ r : KeyedRow κ ρ, g.row? r.key r.period = some r.row ↔ r ∈ rows

/-- A key is that of the first row whose place is taken by a row before it. -/
def FirstRepeated (rows : List (KeyedRow κ ρ)) (key : κ) : Prop :=
  ∃ before r after, rows = before ++ r :: after ∧ (before.map KeyedRow.place).Nodup ∧
    r.place ∈ before.map KeyedRow.place ∧ r.key = key

theorem hasRow_eq (g : Grouping κ ρ) (key : κ) (period : Nat) :
    g.hasRow key period = (g.row? key period).isSome := by
  unfold hasRow row?
  cases g.get? key <;> rfl

theorem row?_upsert (g : Grouping κ ρ) (r : KeyedRow κ ρ) (key : κ) (period : Nat) :
    row? (g.upsert r.key .empty (·.insert r.period r.row)) key period =
      if key = r.key ∧ period = r.period then some r.row else g.row? key period := by
  rw [row?, OrderedMap.get?_upsert]
  by_cases hkey : key = r.key
  · subst hkey
    rw [if_pos rfl, Option.bind_some, Sparse.get?_insert, row?]
    by_cases hperiod : period = r.period
    · rw [if_pos hperiod, if_pos ⟨rfl, hperiod⟩]
    · rw [if_neg hperiod, if_neg fun h => hperiod h.2]
      cases g.get? r.key <;> rfl
  · rw [if_neg hkey, if_neg fun h => hkey h.1, row?]

namespace Gathers

theorem empty : Gathers (.empty : Grouping κ ρ) [] where
  keys := rfl
  row _ := iff_of_false (fun h => by cases h) List.not_mem_nil

theorem hasRow_iff (h : g.Gathers rows) :
    g.hasRow r.key r.period = true ↔ r.place ∈ rows.map KeyedRow.place := by
  rw [hasRow_eq, Option.isSome_iff_exists, List.mem_map]
  constructor
  · rintro ⟨x, hx⟩
    exact ⟨⟨r.key, r.period, x⟩, (h.row _).1 hx, rfl⟩
  · rintro ⟨r', hmem, hplace⟩
    obtain ⟨hkey, hperiod⟩ := Prod.mk.inj hplace
    exact ⟨r'.row, hkey ▸ hperiod ▸ (h.row r').2 hmem⟩

/-- A row whose place is free is added to those that are there. -/
theorem add (h : g.Gathers rows) (hfree : r.place ∉ rows.map KeyedRow.place) :
    Gathers (g.upsert r.key .empty (·.insert r.period r.row)) (rows ++ [r]) where
  keys := by
    rw [OrderedMap.keys_upsert, h.keys, List.map_append]
    exact (eraseDups_concat _ _).symm
  row r' := by
    rw [row?_upsert, List.mem_append, List.mem_singleton]
    by_cases hplace : r'.key = r.key ∧ r'.period = r.period
    · have habsent : r' ∉ rows := fun hmem =>
        hfree (List.mem_map.2 ⟨r', hmem, Prod.ext hplace.1 hplace.2⟩)
      rw [if_pos hplace, or_iff_right habsent, Option.some.injEq]
      obtain ⟨hkey, hperiod⟩ := hplace
      cases r
      cases r'
      cases hkey
      cases hperiod
      rw [KeyedRow.mk.injEq]
      exact ⟨fun hrow => ⟨rfl, rfl, hrow.symm⟩, fun h => h.2.2.symm⟩
    · have hother : r' ≠ r := fun h => hplace ⟨congrArg KeyedRow.key h, congrArg KeyedRow.period h⟩
      rw [if_neg hplace, or_iff_left hother]
      exact h.row r'

/-- Rows are added as long as their places are free. -/
theorem addRows_cases (h : g.Gathers done) (hdone : (done.map KeyedRow.place).Nodup) :
    (∃ g', g.addRows rows = .ok g' ∧ g'.Gathers (done ++ rows) ∧
        ((done ++ rows).map KeyedRow.place).Nodup) ∨
      ∃ e, g.addRows rows = .error e ∧ FirstRepeated (done ++ rows) e.key := by
  induction rows generalizing g done with
  | nil =>
    rw [List.append_nil]
    exact .inl ⟨g, rfl, h, hdone⟩
  | cons r rest ih =>
    by_cases htaken : r.place ∈ done.map KeyedRow.place
    · exact .inr ⟨⟨r.key⟩, if_pos (h.hasRow_iff.2 htaken), done, r, rest, rfl, hdone, htaken, rfl⟩
    · have hnodup : ((done ++ [r]).map KeyedRow.place).Nodup := by
        rw [List.map_append]
        exact hdone.append (List.nodup_singleton _) (by simpa using htaken)
      have hstep : g.addRows (r :: rest) =
          addRows (g.upsert r.key .empty (·.insert r.period r.row)) rest :=
        if_neg fun hrow => htaken (h.hasRow_iff.1 hrow)
      rw [hstep, List.append_cons]
      exact ih (h.add htaken) hnodup

/-- The rows under a key are those that were given for it, each for its period. -/
theorem mem_entries_iff (h : g.Gathers rows) {e : κ × Sparse ρ} (he : e ∈ g.entries)
    {period : Nat} {row : ρ} : (period, row) ∈ e.2.entries ↔ ⟨e.1, period, row⟩ ∈ rows := by
  rw [Sparse.mem_entries_iff, ← h.row, row?, OrderedMap.mem_entries_iff.1 he, Option.bind_some]

end Gathers

omit [DecidableEq κ] in
theorem FirstRepeated.not_nodup (h : FirstRepeated rows key) :
    ¬(rows.map KeyedRow.place).Nodup := by
  obtain ⟨before, r, after, rfl, -, htaken, -⟩ := h
  rw [List.map_append, List.map_cons, List.nodup_append]
  exact fun ⟨_, _, hdisjoint⟩ => hdisjoint _ htaken _ List.mem_cons_self rfl

theorem ofRows_cases (rows : List (KeyedRow κ ρ)) :
    (∃ g, ofRows rows = .ok g ∧ g.Gathers rows ∧ (rows.map KeyedRow.place).Nodup) ∨
      ∃ e, ofRows rows = .error e ∧ FirstRepeated rows e.key :=
  Gathers.empty.addRows_cases .nil

theorem gathers_of_ofRows (h : ofRows rows = .ok g) : g.Gathers rows := by
  rcases ofRows_cases rows with ⟨g', hg', hgathers, -⟩ | ⟨e, he, -⟩
  · cases h.symm.trans hg'
    exact hgathers
  · cases h.symm.trans he

/-- Rows are refused exactly if two of them are for the same entity and period, and the entity of
the first such row is named. Otherwise the entities stand in the order in which they first appear,
and each has exactly the rows given for it, each for its period. -/
theorem ofRows_lossless (rows : List (KeyedRow κ ρ)) :
    ((∃ e, ofRows rows = .error e) ↔ ¬(rows.map KeyedRow.place).Nodup) ∧
      (∀ e, ofRows rows = .error e → FirstRepeated rows e.key) ∧
      ∀ g, ofRows rows = .ok g →
        g.keys = (rows.map (·.key)).eraseDups ∧
          ∀ e ∈ g.entries, ∀ period row,
            (period, row) ∈ e.2.entries ↔ ⟨e.1, period, row⟩ ∈ rows := by
  refine ⟨?_, ?_, fun g hg => ?_⟩
  · rcases ofRows_cases rows with ⟨g, hg, -, hnodup⟩ | ⟨e, he, hrepeated⟩
    · refine iff_of_false ?_ (not_not.2 hnodup)
      rintro ⟨e, he⟩
      cases hg.symm.trans he
    · exact iff_of_true ⟨e, he⟩ hrepeated.not_nodup
  · intro e he
    rcases ofRows_cases rows with ⟨g, hg, -, -⟩ | ⟨e', he', hrepeated⟩
    · cases hg.symm.trans he
    · cases he'.symm.trans he
      exact hrepeated
  · have hgathers := gathers_of_ofRows hg
    exact ⟨hgathers.keys, fun e he _ _ => hgathers.mem_entries_iff he⟩

/-- Rows of two entities in turn, the years of one out of order. -/
def interleavedRows : List (KeyedRow String Nat) :=
  [⟨"gas", 2, 30⟩, ⟨"coal", 0, 10⟩, ⟨"gas", 0, 40⟩]

/-- Every row is found under its entity, and a second row of one of them for a period is refused. -/
theorem interleavedRows_lossless :
    (∃ g, ofRows interleavedRows = .ok g ∧ g.keys = ["gas", "coal"] ∧
      ∀ e ∈ g.entries, ∀ period row,
        (period, row) ∈ e.2.entries ↔ ⟨e.1, period, row⟩ ∈ interleavedRows) ∧
      ∃ e, ofRows (interleavedRows ++ [⟨"gas", 2, 50⟩]) = .error e := by
  constructor
  · obtain ⟨g, hg, -⟩ : ∃ g, ofRows interleavedRows = .ok g ∧ true = true :=
      exists_eq_ok_of_any (by decide)
    obtain ⟨hkeys, hrows⟩ := (ofRows_lossless interleavedRows).2.2 g hg
    exact ⟨g, hg, hkeys.trans (by decide), hrows⟩
  · exact (ofRows_lossless _).1.2 (by decide)

end Grouping

/-- What is made of a group is made of rows that were placed in it. -/
theorem groupRows_eq_ok {place : ρ → Except ε (List (KeyedRow κ σ))}
    {duplicate : DuplicateKey κ → ε} {make : κ → Sparse σ → Except ε μ} {rows : List ρ}
    {result : List (κ × μ)} (h : groupRows place duplicate make rows = .ok result) :
    ∀ y ∈ result, ∃ s, make y.1 s = .ok y.2 ∧ ∀ x ∈ s.entries, ∃ row ∈ rows, ∃ placed,
      place row = .ok placed ∧ (⟨y.1, x.1, x.2⟩ : KeyedRow κ σ) ∈ placed := by
  obtain ⟨placed, hplaced, h⟩ := bind_eq_ok.1 h
  obtain ⟨groups, hgroups, h⟩ := bind_eq_ok.1 h
  have hrows : ∀ r ∈ placed.flatten, ∃ row ∈ rows, ∃ placed, place row = .ok placed ∧
      (⟨r.key, r.period, r.row⟩ : KeyedRow κ σ) ∈ placed := by
    intro r hr
    obtain ⟨rs, hrs, hmem⟩ := List.mem_flatten.1 hr
    have hsource : ∀ rs ∈ placed, ∃ row ∈ rows, place row = .ok rs :=
      forall_mem_of_forall₂ (mapM_eq_ok.1 hplaced) fun row hrow _ hrs => ⟨row, hrow, hrs⟩
    obtain ⟨row, hrow, hplace⟩ := hsource rs hrs
    exact ⟨row, hrow, rs, hplace, hmem⟩
  have hgathers := Grouping.gathers_of_ofRows (mapError_eq_ok.1 hgroups)
  refine forall_mem_of_forall₂ (mapM_eq_ok.1 h) fun e he y hy => ?_
  obtain ⟨made, hmade, hy⟩ := bind_eq_ok.1 hy
  cases hy
  exact ⟨e.2, hmade, fun x hx => hrows _ ((hgathers.mem_entries_iff he).1 hx)⟩

end NestedLogit
