import Mathlib.Data.List.MinMax
import NestedLogit.Proofs.Series.Interpolation

/-!
# What sparse values expand to

Sparse values make a series if there are none of them, or if one is given for the first period. The
series that they make is described here without the filling and the drawing of lines that produce
it. The description leaves no choice, so that a series is produced exactly if it fits.

## Main definitions

- `Sparse.Expandable` — that the values make a series
- `Sparse.Carried` — what carrying forward makes of them
- `Sparse.Joined` — what interpolation makes of them

## Main statements

- `Sparse.exists_carryForward_iff`, `Sparse.exists_interpolate_iff` — when there is a series
- `Sparse.carried_carryForward`, `Sparse.joined_interpolate` — what it is
- `Sparse.Carried.unique`, `Sparse.Joined.unique` — that it is nothing else
- `Sparse.expands_iff` — all of it together
-/

namespace NestedLogit.Sparse

variable {n : ℕ} {α : Type} {c : Calendar n} {s : Sparse α} {default : α}

/-- Values can be expanded if none are given, or if one is given for the first period. -/
def Expandable (s : Sparse α) : Prop :=
  s.entries = [] ∨ ∃ v, (0, v) ∈ s.entries

/-- Every period has the value of the last entry up to it, or the default if nothing is given. -/
def Carried (s : Sparse α) (default : α) (series : Series n α) : Prop :=
  ∀ p : Fin n, s.entries = [] ∧ series[p] = default ∨
    ∃ e, LastUpTo s.entries p e ∧ series[p] = e.2

/-- Every given period has its value and is marked. Between two neighbouring given periods the
values are on a line over the years, and behind the last one they stay as they are. If nothing is
given, every period has the default. -/
structure Joined [ExactQuantity α] (c : Calendar n) (s : Sparse α) (default : α)
    (values : Series n α) (given : Series n Bool) : Prop where
  marked : ∀ p : Fin n, given[p] = true ↔ ∃ v, (p.val, v) ∈ s.entries
  value : ∀ (p : Fin n) (v : α), (p.val, v) ∈ s.entries → values[p] = v
  line : ∀ (a b p : Fin n) (v w : α), (a.val, v) ∈ s.entries →
    FirstAfter s.entries a (b.val, w) → a < p → p < b →
    values[p] * ((c.year b : α) - c.year a)
      = v * ((c.year b : α) - c.year p) + w * ((c.year p : α) - c.year a)
  tail : ∀ (a p : Fin n) (v : α), (a.val, v) ∈ s.entries → (∀ e ∈ s.entries, e.1 ≤ a.val) →
    a < p → values[p] = v
  empty : s.entries = [] → ∀ p : Fin n, values[p] = default

section Neighbours

variable {entries : List (ℕ × α)} {r : ℕ}

theorem exists_lastUpTo {e : ℕ × α} (he : e ∈ entries) (hr : e.1 ≤ r) :
    ∃ x, LastUpTo entries r x := by
  have hmem : e ∈ entries.filter fun x => x.1 ≤ r := List.mem_filter.2 ⟨he, decide_eq_true hr⟩
  cases hmax : (entries.filter fun x => x.1 ≤ r).argmax Prod.fst with
  | none => exact absurd hmem (List.argmax_eq_none.1 hmax ▸ List.not_mem_nil)
  | some x =>
    obtain ⟨hx, hle⟩ := List.mem_filter.1 (List.argmax_mem hmax)
    refine ⟨x, hx, of_decide_eq_true hle, fun y hy hyr => ?_⟩
    exact List.le_of_mem_argmax (List.mem_filter.2 ⟨hy, decide_eq_true hyr⟩) hmax

theorem exists_firstAfter {e : ℕ × α} (he : e ∈ entries) (hr : r < e.1) :
    ∃ x, FirstAfter entries r x := by
  have hmem : e ∈ entries.filter fun x => r < x.1 := List.mem_filter.2 ⟨he, decide_eq_true hr⟩
  cases hmin : (entries.filter fun x => r < x.1).argmin Prod.fst with
  | none => exact absurd hmem (List.argmin_eq_none.1 hmin ▸ List.not_mem_nil)
  | some x =>
    obtain ⟨hx, hlt⟩ := List.mem_filter.1 (List.argmin_mem hmin)
    refine ⟨x, hx, of_decide_eq_true hlt, fun y hy hry => ?_⟩
    exact List.le_of_mem_argmin (List.mem_filter.2 ⟨hy, decide_eq_true hry⟩) hmin

theorem LastUpTo.unique {x y : ℕ × α} (hx : LastUpTo s.entries r x)
    (hy : LastUpTo s.entries r y) : x = y := by
  have hperiod : x.1 = y.1 := le_antisymm (hy.last x hx.mem hx.le) (hx.last y hy.mem hy.le)
  exact Prod.ext hperiod (eq_of_mem_entries (s := s) hx.mem (hperiod ▸ hy.mem))

/-- What comes first after a period comes first after the last given one up to it. -/
theorem FirstAfter.of_lastUpTo {a b : ℕ × α} (ha : LastUpTo entries r a)
    (hb : FirstAfter entries r b) : FirstAfter entries a.1 b := by
  refine ⟨hb.mem, ha.le.trans_lt hb.lt, fun e he hlt => hb.first e he ?_⟩
  by_contra hle
  exact absurd hlt (not_lt.2 (ha.last e he (not_lt.1 hle)))

end Neighbours

section Success

variable {entries : List (ℕ × α)}

theorem exists_fill (h : ∀ e ∈ entries, e.1 < n) (series : Series n α) :
    ∃ filled, fill series entries = some filled := by
  induction entries generalizing series with
  | nil => exact ⟨series, rfl⟩
  | cons e rest ih =>
    obtain ⟨he, hrest⟩ := List.forall_mem_cons.1 h
    obtain ⟨filled, hfilled⟩ := ih hrest (series.fillFrom e.1 e.2)
    refine ⟨filled, Option.bind_eq_some_iff.2 ⟨_, ?_, hfilled⟩⟩
    exact if_pos he.le

theorem exists_mark (h : ∀ e ∈ entries, e.1 < n) (given : Series n Bool) :
    ∃ marked, mark given entries = some marked := by
  induction entries generalizing given with
  | nil => exact ⟨given, rfl⟩
  | cons e rest ih =>
    obtain ⟨he, hrest⟩ := List.forall_mem_cons.1 h
    obtain ⟨marked, hmarked⟩ := ih hrest (given.modify ⟨e.1, he⟩ fun _ => true)
    refine ⟨marked, Option.bind_eq_some_iff.2 ⟨_, ?_, hmarked⟩⟩
    exact Option.map_eq_some_iff.2 ⟨⟨e.1, he⟩, Series.period?_val ⟨e.1, he⟩, rfl⟩

theorem exists_drawLines [Quantity α] (h : ∀ e ∈ entries, e.1 < n) (series : Series n α) :
    ∃ drawn, drawLines c series entries = some drawn := by
  induction entries generalizing series with
  | nil => exact ⟨series, rfl⟩
  | cons e rest ih =>
    obtain ⟨he, hrest⟩ := List.forall_mem_cons.1 h
    cases rest with
    | nil => exact ⟨series, rfl⟩
    | cons e' rest =>
      have he' := hrest e' List.mem_cons_self
      obtain ⟨drawn, hdrawn⟩ := ih hrest (drawLine c series ⟨e.1, he⟩ ⟨e'.1, he'⟩ e.2 e'.2)
      refine ⟨drawn, Option.bind_eq_some_iff.2 ⟨_, Series.period?_val ⟨e.1, he⟩, ?_⟩⟩
      exact Option.bind_eq_some_iff.2 ⟨_, Series.period?_val ⟨e'.1, he'⟩, hdrawn⟩

theorem contains_of_mem {period : ℕ} {v : α} (h : (period, v) ∈ s.entries) :
    s.contains period = true := by
  rw [contains, mem_entries_iff.1 h]
  rfl

theorem expandable_of_carryForward {series : Series n α}
    (h : s.carryForward c default = .ok series) : s.Expandable :=
  (carryForward_eq_ok h).imp And.left And.left

/-- Values of periods that there are make a series exactly if they can be expanded. -/
theorem exists_carryForward_iff (h : ∀ e ∈ s.entries, e.1 < n) :
    (∃ series, s.carryForward c default = .ok series) ↔ s.Expandable := by
  refine ⟨fun ⟨_, hcarried⟩ => expandable_of_carryForward hcarried, ?_⟩
  rintro (hempty | ⟨v, hfirst⟩)
  · exact ⟨_, if_pos (List.isEmpty_iff.2 hempty)⟩
  · have hsome : ¬s.isEmpty = true := fun hempty =>
      absurd hfirst (List.isEmpty_iff.1 hempty ▸ List.not_mem_nil)
    obtain ⟨filled, hfilled⟩ := exists_fill h (Series.const n default)
    refine ⟨filled, ?_⟩
    rw [carryForward, if_neg hsome, if_pos (contains_of_mem hfirst), hfilled]

theorem exists_interpolate_iff [Quantity α] (h : ∀ e ∈ s.entries, e.1 < n) :
    (∃ values given, s.interpolate c default = .ok (values, given)) ↔ s.Expandable := by
  have hcarries : (∃ series, s.carryForward c default = .ok series) ↔ s.Expandable :=
    exists_carryForward_iff h
  rw [← hcarries]
  constructor
  · rintro ⟨values, given, hinterpolated⟩
    obtain ⟨carried, hcarried, -⟩ := interpolate_eq_ok hinterpolated
    exact ⟨carried, hcarried⟩
  · rintro ⟨carried, hcarried⟩
    obtain ⟨given, hgiven⟩ := exists_mark h (Series.const n false)
    obtain ⟨values, hvalues⟩ := exists_drawLines (c := c) h carried
    refine ⟨values, given, bind_eq_ok.2 ⟨carried, hcarried, ?_⟩⟩
    rw [hgiven, hvalues]

end Success

section CarriedForward

/-- Up to every period there is a last entry, if the first period is given. -/
theorem Expandable.exists_last (h : s.Expandable) (hsome : s.entries ≠ []) (r : ℕ) :
    ∃ e, LastUpTo s.entries r e := by
  obtain ⟨v, hfirst⟩ := h.resolve_left hsome
  exact exists_lastUpTo hfirst (Nat.zero_le r)

theorem carried_carryForward {series : Series n α} (h : s.carryForward c default = .ok series) :
    s.Carried default series := by
  intro p
  rcases carryForward_eq_ok h with ⟨hempty, rfl⟩ | ⟨⟨v, hfirst⟩, hfill⟩
  · exact .inl ⟨hempty, Series.getElem_const _ _⟩
  · obtain ⟨e, he⟩ := exists_lastUpTo hfirst (Nat.zero_le p.val)
    exact .inr ⟨e, he, fill_last s.increasing hfill he⟩

theorem Carried.unique {series series' : Series n α} (h : s.Carried default series)
    (h' : s.Carried default series') : series = series' := by
  refine Series.ext fun p => ?_
  rcases h p with ⟨hempty, hp⟩ | ⟨e, he, hp⟩
  · rcases h' p with ⟨-, hp'⟩ | ⟨e', he', -⟩
    · exact hp.trans hp'.symm
    · exact absurd he'.mem (hempty ▸ List.not_mem_nil)
  · rcases h' p with ⟨hempty, -⟩ | ⟨e', he', hp'⟩
    · exact absurd he.mem (hempty ▸ List.not_mem_nil)
    · rw [hp, hp', he.unique he']

end CarriedForward

section Interpolation

variable [ExactQuantity α] {values values' : Series n α} {given given' : Series n Bool}

/-- Weighing the ends of a line by the years from the other end gives the value between them. -/
theorem onLine_mul_years {a b p : Fin n} (hap : a ≤ p) (hpb : p < b) (v w : α) :
    onLine c a b p v w * ((c.year b : α) - c.year a)
      = v * ((c.year b : α) - c.year p) + w * ((c.year p : α) - c.year a) := by
  have hab : (0 : α) < c.span a b := Nat.cast_pos.2 (c.span_pos (hap.trans_lt hpb))
  have hwhole : (c.year b : α) = c.year a + c.span a b := by
    rw [← c.year_add_span (hap.trans hpb.le), Nat.cast_add]
  have hpart : (c.year p : α) = c.year a + c.span a p := by
    rw [← c.year_add_span hap, Nat.cast_add]
  rw [onLine, Quantity.whole_eq_cast, Quantity.whole_eq_cast, hwhole, hpart]
  field_simp
  ring

theorem joined_interpolate (h : s.interpolate c default = .ok (values, given)) :
    s.Joined c default values given where
  marked _ := given_iff h
  value _ _ hp := interpolate_value h hp
  line a b p v w ha hb hap hpb := by
    have hno : ∀ k, a < k → k < b → given[k] = false := by
      intro k hak hkb
      by_contra hk
      obtain ⟨x, hx⟩ := (given_iff h).1 (by simpa using hk)
      exact absurd hkb (not_lt.2 (hb.first _ hx hak))
    rw [interpolate_line h ha hb.mem hap.le hpb hno]
    exact onLine_mul_years hap.le hpb v w
  tail a p v ha hlast hap := by
    refine interpolate_tail h ha hap.le fun k hak => ?_
    by_contra hk
    obtain ⟨x, hx⟩ := (given_iff h).1 (by simpa using hk)
    exact absurd hak (not_lt.2 (hlast _ hx))
  empty hempty p := by
    have hno : ∀ k : Fin n, given[k] = false := by
      intro k
      by_contra hk
      obtain ⟨x, hx⟩ := (given_iff h).1 (by simpa using hk)
      exact absurd hx (hempty ▸ List.not_mem_nil)
    rw [interpolate_default h hno, Series.getElem_const]

namespace Joined

theorem given_unique (h : s.Joined c default values given)
    (h' : s.Joined c default values' given') : given = given' :=
  Series.ext fun p => Bool.eq_iff_iff.2 ((h.marked p).trans (h'.marked p).symm)

/-- A period is given, or it lies between two given ones or behind all of them, which settles its
value. -/
theorem values_unique (hexpandable : s.Expandable) (hperiods : ∀ e ∈ s.entries, e.1 < n)
    (h : s.Joined c default values given) (h' : s.Joined c default values' given') :
    values = values' := by
  refine Series.ext fun p => ?_
  by_cases hempty : s.entries = []
  · rw [h.empty hempty, h'.empty hempty]
  obtain ⟨⟨a, v⟩, ha⟩ := hexpandable.exists_last hempty p
  obtain ⟨a, rfl⟩ : ∃ k : Fin n, k.val = a := ⟨⟨a, hperiods _ ha.mem⟩, rfl⟩
  rcases (show a ≤ p from ha.le).eq_or_lt with rfl | hap
  · rw [h.value a v ha.mem, h'.value a v ha.mem]
  by_cases hlater : ∃ e ∈ s.entries, p.val < e.1
  · obtain ⟨e, he, hpe⟩ := hlater
    obtain ⟨⟨b, w⟩, hb⟩ := exists_firstAfter he hpe
    obtain ⟨b, rfl⟩ : ∃ k : Fin n, k.val = b := ⟨⟨b, hperiods _ hb.mem⟩, rfl⟩
    have hnext : FirstAfter s.entries a (b.val, w) := hb.of_lastUpTo ha
    have hyears : (c.year b : α) - c.year a ≠ 0 :=
      sub_ne_zero.2 (Nat.cast_injective.ne (c.increasing a b hnext.lt).ne')
    apply mul_right_cancel₀ hyears
    rw [h.line a b p v w ha.mem hnext hap hb.lt, h'.line a b p v w ha.mem hnext hap hb.lt]
  · push Not at hlater
    have hlast : ∀ e ∈ s.entries, e.1 ≤ a.val := fun e he => ha.last e he (hlater e he)
    rw [h.tail a p v ha.mem hlast hap, h'.tail a p v ha.mem hlast hap]

end Joined

/-- Values of periods that there are can be carried forward and interpolated exactly if none are
given or the first period is. What comes of it is the one series that has the value of the last
given period up to each, and the one that joins neighbouring given values by lines over the
years. -/
theorem expands_iff (c : Calendar n) (default : α) (hperiods : ∀ e ∈ s.entries, e.1 < n) :
    ((∃ series, s.carryForward c default = .ok series) ↔ s.Expandable) ∧
      ((∃ values given, s.interpolate c default = .ok (values, given)) ↔ s.Expandable) ∧
      (∀ series, s.carryForward c default = .ok series ↔
        s.Expandable ∧ s.Carried default series) ∧
      ∀ values given, s.interpolate c default = .ok (values, given) ↔
        s.Expandable ∧ s.Joined c default values given := by
  have hcarries : (∃ series, s.carryForward c default = .ok series) ↔ s.Expandable :=
    exists_carryForward_iff hperiods
  have hjoins : (∃ values given, s.interpolate c default = .ok (values, given)) ↔ s.Expandable :=
    exists_interpolate_iff hperiods
  refine ⟨hcarries, hjoins, fun series => ⟨fun h => ?_, ?_⟩, fun values given => ⟨fun h => ?_, ?_⟩⟩
  · exact ⟨expandable_of_carryForward h, carried_carryForward h⟩
  · rintro ⟨hexpandable, hseries⟩
    obtain ⟨carried, hcarried⟩ := hcarries.2 hexpandable
    rw [hcarried, hseries.unique (carried_carryForward hcarried)]
  · exact ⟨hjoins.1 ⟨values, given, h⟩, joined_interpolate h⟩
  · rintro ⟨hexpandable, hvalues⟩
    obtain ⟨base, marks, h⟩ := hjoins.2 hexpandable
    have hjoined := joined_interpolate h
    rw [h, hvalues.given_unique hjoined, hvalues.values_unique hexpandable hperiods hjoined]

end Interpolation

theorem sparseWeights_expands :
    (∀ e ∈ sparseWeights.entries, e.1 < 5) ∧
      ((∃ series, sparseWeights.carryForward unevenYears 0 = .ok series) ↔
        sparseWeights.Expandable) ∧
      ((∃ values given, sparseWeights.interpolate unevenYears 0 = .ok (values, given)) ↔
        sparseWeights.Expandable) ∧
      (∀ series, sparseWeights.carryForward unevenYears 0 = .ok series ↔
        sparseWeights.Expandable ∧ sparseWeights.Carried 0 series) ∧
      ∀ values given, sparseWeights.interpolate unevenYears 0 = .ok (values, given) ↔
        sparseWeights.Expandable ∧ sparseWeights.Joined unevenYears 0 values given := by
  have hperiods : ∀ e ∈ sparseWeights.entries, e.1 < 5 := by decide
  exact ⟨hperiods, expands_iff unevenYears 0 hperiods⟩

end NestedLogit.Sparse
