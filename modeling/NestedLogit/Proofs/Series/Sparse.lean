import NestedLogit.Proofs.Calibration
import NestedLogit.Proofs.Except

/-!
# What becomes of sparse values

A series that is made of sparse values has what the given values and the default have in common:
carried forward, every value is one of them; interpolated, it lies between two of them; and a value
that applies in its own period only is given for that period.

## Main statements

- `Sparse.mem_entries_iff`, `Sparse.get?_insert` — what is given for a period
- `Sparse.forall_carryForward` — carrying forward makes up no values
- `Sparse.interpolate_nonneg` — interpolation of amounts gives amounts
- `Sparse.mem_of_perPeriod` — what applies in a period is given for it
- `Sparse.none_or_none_of_perPeriod` — what is not given together does not apply together
-/

namespace NestedLogit

theorem Series.getElem_fillFrom? {n : Nat} {α : Type} {series filled : Series n α} {start : Nat}
    {value : α} (h : series.fillFrom? start value = some filled) (p : Fin n) :
    filled[p] = if start ≤ p.val then value else series[p] := by
  unfold Series.fillFrom? at h
  split at h
  · cases h
    exact Series.getElem_fillFrom _ _ _ _
  · cases h

namespace Sparse

variable {n : Nat} {α β : Type} {s : Sparse α} {c : Calendar n}

theorem mem_entries_filterMap {f : α → Option β} {e : Nat × β} :
    e ∈ (s.filterMap f).entries ↔ ∃ x, (e.1, x) ∈ s.entries ∧ f x = some e.2 := by
  constructor
  · intro h
    obtain ⟨⟨period, x⟩, hmem, hx⟩ := List.mem_filterMap.1 h
    obtain ⟨v, hv, rfl⟩ := Option.map_eq_some_iff.1 hx
    exact ⟨x, hmem, hv⟩
  · rintro ⟨x, hmem, hx⟩
    exact List.mem_filterMap.2 ⟨(e.1, x), hmem, Option.map_eq_some_iff.2 ⟨e.2, hx, rfl⟩⟩

theorem forall_filterMap {C : α → Prop} {P : β → Prop} {f : α → Option β}
    (hs : ∀ e ∈ s.entries, C e.2) (hf : ∀ x, C x → ∀ v, f x = some v → P v) :
    ∀ e ∈ (s.filterMap f).entries, P e.2 := by
  intro e he
  obtain ⟨x, hx, hv⟩ := mem_entries_filterMap.1 he
  exact hf x (hs _ hx) _ hv

/-- No period is given twice. -/
theorem eq_of_mem_entries {period : Nat} {x y : α} (hx : (period, x) ∈ s.entries)
    (hy : (period, y) ∈ s.entries) : x = y := by
  have hnodup : (s.entries.map (·.1)).Nodup :=
    List.pairwise_map.2 (s.increasing.imp Nat.ne_of_lt)
  exact (Prod.mk.inj (List.inj_on_of_nodup_map hnodup hx hy rfl)).2

/-- Looking up a period finds the value given for it. -/
theorem mem_entries_iff {period : Nat} {value : α} :
    (period, value) ∈ s.entries ↔ s.get? period = some value := by
  have hfound : ∀ v, s.get? period = some v → (period, v) ∈ s.entries := by
    intro v hv
    obtain ⟨before, after, hentries, -⟩ := List.lookup_eq_some_iff.1 hv
    simp [hentries]
  refine ⟨fun hmem => ?_, hfound value⟩
  cases hlookup : s.get? period with
  | none => simpa using List.lookup_eq_none_iff.1 hlookup _ hmem
  | some v => exact congrArg some (eq_of_mem_entries (hfound v hlookup) hmem)

theorem lookup_cons (q k : Nat) (w : α) (rest : List (Nat × α)) :
    ((k, w) :: rest).lookup q = if q = k then some w else rest.lookup q := by
  rw [List.lookup_cons]
  by_cases hk : q = k
  · rw [if_pos hk, beq_iff_eq.2 hk]
  · rw [if_neg hk, beq_false_of_ne hk]

theorem get?_insert (s : Sparse α) (period : Nat) (value : α) (q : Nat) :
    (s.insert period value).get? q = if q = period then some value else s.get? q := by
  change (put period value s.entries).lookup q = if q = period then _ else s.entries.lookup q
  generalize s.entries = entries
  induction entries with
  | nil => exact lookup_cons q period value []
  | cons e rest ih =>
    obtain ⟨k, w⟩ := e
    rw [put]
    split
    · exact lookup_cons q period value _
    · split
      · next heq =>
        subst heq
        rw [lookup_cons, lookup_cons]
        by_cases hq : q = period
        · rw [if_pos hq, if_pos hq]
        · rw [if_neg hq, if_neg hq, if_neg hq]
      · next hne =>
        rw [lookup_cons, lookup_cons, ih]
        by_cases hk : q = k
        · rw [if_pos hk, if_neg fun hq => hne (hq.symm.trans hk), if_pos hk]
        · rw [if_neg hk, if_neg hk]

/-- Either nothing is given and every period has the default, or the first period is given. -/
theorem carryForward_eq_ok {default : α} {carried : Series n α}
    (h : s.carryForward c default = .ok carried) :
    s.entries = [] ∧ carried = Series.const n default ∨
      (∃ v, (0, v) ∈ s.entries) ∧ fill (Series.const n default) s.entries = some carried := by
  unfold carryForward at h
  split at h
  · next hempty =>
    cases h
    exact .inl ⟨List.isEmpty_iff.1 hempty, rfl⟩
  · split at h
    · next hfirst =>
      obtain ⟨v, hv⟩ := Option.isSome_iff_exists.1 hfirst
      refine .inr ⟨⟨v, mem_entries_iff.2 hv⟩, ?_⟩
      split at h
      · next hfilled =>
        cases h
        exact hfilled
      · cases h
    · cases h

theorem interpolate_eq_ok [Quantity α] {default : α} {base : Series n α} {given : Series n Bool}
    (h : s.interpolate c default = .ok (base, given)) :
    ∃ carried, s.carryForward c default = .ok carried ∧
      mark (Series.const n false) s.entries = some given ∧
      drawLines c carried s.entries = some base := by
  obtain ⟨carried, hcarried, h⟩ := bind_eq_ok.1 h
  split at h
  · next hmark hdraw =>
    cases h
    exact ⟨carried, hcarried, hmark, hdraw⟩
  · cases h

section Filling

variable {P : α → Prop}

theorem forall_fill {series filled : Series n α} {entries : List (Nat × α)}
    (h : fill series entries = some filled) (hseries : ∀ p : Fin n, P series[p])
    (hentries : ∀ e ∈ entries, P e.2) : ∀ p : Fin n, P filled[p] := by
  induction entries generalizing series with
  | nil =>
    cases h
    exact hseries
  | cons e rest ih =>
    obtain ⟨he, hrest⟩ := List.forall_mem_cons.1 hentries
    obtain ⟨next, hnext, h⟩ := Option.bind_eq_some_iff.1 h
    apply ih h _ hrest
    intro p
    rw [Series.getElem_fillFrom? hnext]
    split
    · exact he
    · exact hseries p

/-- Values that are carried forward are given ones, or the default. -/
theorem forall_carryForward {default : α} {series : Series n α}
    (h : s.carryForward c default = .ok series) (hdefault : P default)
    (hs : ∀ e ∈ s.entries, P e.2) : ∀ p : Fin n, P series[p] := by
  have hconst : ∀ p : Fin n, P (Series.const n default)[p] := fun p => by
    rwa [Series.getElem_const]
  rcases carryForward_eq_ok h with ⟨-, rfl⟩ | ⟨-, hfill⟩
  · exact hconst
  · exact forall_fill hfill hconst hs

end Filling

section Lines

variable {α : Type} [ExactQuantity α] {s : Sparse α}

theorem drawLines_nonneg {series drawn : Series n α} {entries : List (Nat × α)}
    (h : drawLines c series entries = some drawn) (hseries : ∀ p : Fin n, 0 ≤ series[p])
    (hentries : ∀ e ∈ entries, 0 ≤ e.2) : ∀ p : Fin n, 0 ≤ drawn[p] := by
  induction entries generalizing series with
  | nil =>
    cases h
    exact hseries
  | cons e rest ih =>
    obtain ⟨he, hrest⟩ := List.forall_mem_cons.1 hentries
    cases rest with
    | nil =>
      cases h
      exact hseries
    | cons e' rest =>
      -- A line lies between two given values, the second of which the next line starts from.
      obtain ⟨a, -, h⟩ := Option.bind_eq_some_iff.1 h
      obtain ⟨b, -, h⟩ := Option.bind_eq_some_iff.1 h
      apply ih h _ hrest
      intro p
      rw [drawLine, Series.getElem_ofFn]
      split
      · next hbetween =>
        exact onLine_nonneg c hbetween.1 hbetween.2 he (hrest e' List.mem_cons_self)
      · exact hseries p

/-- Values between amounts are amounts. -/
theorem interpolate_nonneg {default : α} {result : Series n α × Series n Bool}
    (h : s.interpolate c default = .ok result) (hdefault : 0 ≤ default)
    (hs : ∀ e ∈ s.entries, 0 ≤ e.2) : ∀ p : Fin n, 0 ≤ result.1[p] := by
  obtain ⟨carried, hcarried, -, hdrawn⟩ := interpolate_eq_ok h
  exact drawLines_nonneg hdrawn (forall_carryForward hcarried hdefault hs) hs

end Lines

theorem mem_of_spread {series result : Series n (Option α)} {entries : List (Nat × α)}
    (h : spread series entries = some result) {p : Fin n} {v : α} (hv : result[p] = some v) :
    series[p] = some v ∨ (p.val, v) ∈ entries := by
  induction entries generalizing series with
  | nil =>
    cases h
    exact .inl hv
  | cons e rest ih =>
    obtain ⟨next, hnext, h⟩ := Option.bind_eq_some_iff.1 h
    rcases ih h with hold | hrest
    · obtain ⟨q, hq, rfl⟩ := Option.map_eq_some_iff.1 hnext
      have hperiod : q.val = e.1 := (Series.eq_of_period? hq).symm
      by_cases hpq : q = p
      · subst hpq
        rw [Series.getElem_modify_self] at hold
        refine .inr (List.mem_cons.2 (.inl (Prod.ext hperiod ?_)))
        exact (Option.some.inj hold).symm
      · rw [Series.getElem_modify_of_ne _ _ hpq] at hold
        exact .inl hold
    · exact .inr (List.mem_cons_of_mem _ hrest)

/-- What applies in a period is given for that period. -/
theorem mem_of_perPeriod {series : Series n (Option α)} (h : s.perPeriod n = .ok series)
    {p : Fin n} {v : α} (hv : series[p] = some v) : (p.val, v) ∈ s.entries := by
  unfold perPeriod at h
  split at h
  · next hspread =>
    cases h
    refine (mem_of_spread hspread hv).resolve_left ?_
    rw [Series.getElem_const]
    exact Option.some_ne_none v ∘ Eq.symm
  · cases h

/-- What no row gives together with something else does not apply in the same period. -/
theorem none_or_none_of_perPeriod {γ : Type} {f : α → Option β} {g : α → Option γ}
    {values : Series n (Option β)} {others : Series n (Option γ)}
    (hvalues : (s.filterMap f).perPeriod n = .ok values)
    (hothers : (s.filterMap g).perPeriod n = .ok others)
    (hs : ∀ e ∈ s.entries, f e.2 = none ∨ g e.2 = none) (p : Fin n) :
    values[p] = none ∨ others[p] = none := by
  cases hvalue : values[p] with
  | none => exact .inl rfl
  | some v =>
    cases hother : others[p] with
    | none => exact .inr rfl
    | some w =>
      -- Both are given for the period, and a period has one row.
      obtain ⟨row, hrow, hv⟩ := mem_entries_filterMap.1 (mem_of_perPeriod hvalues hvalue)
      obtain ⟨row', hrow', hw⟩ := mem_entries_filterMap.1 (mem_of_perPeriod hothers hother)
      obtain rfl := eq_of_mem_entries hrow hrow'
      rcases hs _ hrow with hnone | hnone
      · rw [hnone] at hv
        cases hv
      · rw [hnone] at hw
        cases hw

theorem forall_perPeriod {P : α → Prop} {series : Series n (Option α)}
    (h : s.perPeriod n = .ok series) (hs : ∀ e ∈ s.entries, P e.2) (p : Fin n) :
    ∀ v, series[p] = some v → P v :=
  fun v hv => hs (p.val, v) (mem_of_perPeriod h hv)

end Sparse

end NestedLogit
