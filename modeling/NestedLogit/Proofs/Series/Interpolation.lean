import Mathlib.Data.Finset.Max
import Mathlib.Tactic.FieldSimp
import NestedLogit.Proofs.Series.Sparse

/-!
# Interpolation by year

Between two given periods interpolation puts the values on a line over the years, and behind the
last given one it holds the value. A recalibrated value is carried forward in the same two ways,
from any period to the next given one. A line from a point of another line to the end of that is a
part of it, so that nothing changes if the value carried forward is the one that the period has.

## Main definitions

- `Sparse.LastUpTo`, `Sparse.FirstAfter` — the entries between which a period lies
- `Sparse.Interpolated` — series with values on lines between given periods

## Main statements

- `Sparse.fill_last`, `Sparse.drawLines_between` — the value of a period by its two entries
- `Sparse.interpolate_line`, `Sparse.interpolate_tail` — what interpolation gives
- `Sparse.Interpolated.carryFrom_self` — carrying forward the value of a period itself
- `Sparse.interpolate_carryFrom` — interpolation and carrying forward agree
-/

namespace NestedLogit

variable {n : ℕ} {α : Type} {c : Calendar n} {p q r : Fin n}

namespace Calendar

variable {a b d : Fin n}

theorem year_mono (c : Calendar n) (h : a ≤ b) : c.year a ≤ c.year b := by
  rcases h.eq_or_lt with rfl | hlt
  · exact le_rfl
  · exact (c.increasing a b hlt).le

/-- No difference of years is cut off at zero. -/
theorem year_add_span (c : Calendar n) (h : a ≤ b) : c.year a + c.span a b = c.year b :=
  Nat.add_sub_of_le (c.year_mono h)

theorem span_add (c : Calendar n) (hab : a ≤ b) (hbd : b ≤ d) :
    c.span a b + c.span b d = c.span a d := by
  have hfirst := c.year_add_span hab
  have hsecond := c.year_add_span hbd
  have hboth := c.year_add_span (hab.trans hbd)
  omega

end Calendar

namespace Sparse

/-- An entry is the last one up to a period. -/
structure LastUpTo (entries : List (ℕ × α)) (r : ℕ) (e : ℕ × α) : Prop where
  mem : e ∈ entries
  le : e.1 ≤ r
  last : ∀ e' ∈ entries, e'.1 ≤ r → e'.1 ≤ e.1

/-- An entry is the first one after a period. -/
structure FirstAfter (entries : List (ℕ × α)) (r : ℕ) (e : ℕ × α) : Prop where
  mem : e ∈ entries
  lt : r < e.1
  first : ∀ e' ∈ entries, r < e'.1 → e.1 ≤ e'.1

section Neighbours

variable {e e' x : ℕ × α} {rest : List (ℕ × α)} {r : ℕ}

theorem LastUpTo.eq_head (h : LastUpTo (e :: rest) r x) (hlater : ∀ e' ∈ rest, r < e'.1) :
    x = e := by
  refine (List.mem_cons.1 h.mem).resolve_right fun hmem => ?_
  exact absurd h.le (not_le.2 (hlater x hmem))

theorem LastUpTo.tail (h : LastUpTo (e :: rest) r x) (hmem : e' ∈ rest) (hr : e'.1 ≤ r)
    (hlt : e.1 < e'.1) : LastUpTo rest r x := by
  refine ⟨(List.mem_cons.1 h.mem).resolve_left ?_, h.le,
    fun y hy => h.last y (List.mem_cons_of_mem _ hy)⟩
  rintro rfl
  exact absurd (h.last e' (List.mem_cons_of_mem _ hmem) hr) (not_le.2 hlt)

theorem FirstAfter.eq_head (h : FirstAfter (e :: rest) r x) (hr : r < e.1)
    (hlater : ∀ e' ∈ rest, e.1 < e'.1) : x = e := by
  refine (List.mem_cons.1 h.mem).resolve_right fun hmem => ?_
  exact absurd (h.first e List.mem_cons_self hr) (not_le.2 (hlater x hmem))

theorem FirstAfter.tail (h : FirstAfter (e :: rest) r x) (hr : e.1 ≤ r) :
    FirstAfter rest r x := by
  refine ⟨(List.mem_cons.1 h.mem).resolve_left ?_, h.lt,
    fun y hy => h.first y (List.mem_cons_of_mem _ hy)⟩
  rintro rfl
  exact absurd h.lt (not_lt.2 hr)

end Neighbours

section Filling

variable {series filled : Series n α} {entries : List (ℕ × α)}

theorem fill_before (h : fill series entries = some filled) (hr : ∀ e ∈ entries, r.val < e.1) :
    filled[r] = series[r] := by
  induction entries generalizing series with
  | nil =>
    cases h
    rfl
  | cons e rest ih =>
    rw [List.forall_mem_cons] at hr
    obtain ⟨next, hnext, h⟩ := Option.bind_eq_some_iff.1 h
    rw [ih h hr.2, Series.getElem_fillFrom? hnext, if_neg (by omega)]

/-- A period is filled with the value of the last entry up to it. -/
theorem fill_last (hsorted : entries.Pairwise fun a b => a.1 < b.1)
    (h : fill series entries = some filled) {x : ℕ × α} (hx : LastUpTo entries r x) :
    filled[r] = x.2 := by
  induction entries generalizing series with
  | nil => cases hx.mem
  | cons e rest ih =>
    rw [List.pairwise_cons] at hsorted
    obtain ⟨next, hnext, hrest⟩ := Option.bind_eq_some_iff.1 h
    by_cases hlater : ∀ e' ∈ rest, r.val < e'.1
    · obtain rfl := hx.eq_head hlater
      rw [fill_before hrest hlater, Series.getElem_fillFrom? hnext, if_pos hx.le]
    · push Not at hlater
      obtain ⟨e', hmem, hr⟩ := hlater
      exact ih hsorted.2 hrest (hx.tail hmem hr (hsorted.1 e' hmem))

end Filling

section Marking

variable {given marked : Series n Bool} {entries : List (ℕ × α)}

/-- Exactly the periods of entries become marked. -/
theorem mark_iff (h : mark given entries = some marked) :
    marked[r] = true ↔ given[r] = true ∨ ∃ v, (r.val, v) ∈ entries := by
  induction entries generalizing given with
  | nil =>
    cases h
    simp
  | cons e rest ih =>
    obtain ⟨next, hnext, h⟩ := Option.bind_eq_some_iff.1 h
    obtain ⟨q, hq, rfl⟩ := Option.map_eq_some_iff.1 hnext
    have hperiod := Series.eq_of_period? hq
    rw [ih h]
    by_cases hqr : q = r
    · subst hqr
      rw [Series.getElem_modify_self]
      exact iff_of_true (.inl rfl)
        (.inr ⟨e.2, List.mem_cons.2 (.inl (Prod.ext hperiod.symm rfl))⟩)
    · have hne : ∀ v, (r.val, v) ≠ e := by
        rintro v rfl
        exact hqr (Fin.ext hperiod.symm)
      rw [Series.getElem_modify_of_ne _ _ hqr]
      simp [hne]

theorem lt_of_mark (h : mark given entries = some marked) : ∀ e ∈ entries, e.1 < n := by
  induction entries generalizing given with
  | nil => simp
  | cons e rest ih =>
    obtain ⟨next, hnext, h⟩ := Option.bind_eq_some_iff.1 h
    obtain ⟨q, hq, -⟩ := Option.map_eq_some_iff.1 hnext
    refine List.forall_mem_cons.2 ⟨?_, ih h⟩
    rw [Series.eq_of_period? hq]
    exact q.isLt

end Marking

section Lines

variable [Quantity α] {series drawn : Series n α} {entries : List (ℕ × α)}

/-- What is drawn between two entries or more starts with the first line. -/
theorem drawLines_cons {e e' : ℕ × α} {rest : List (ℕ × α)}
    (h : drawLines c series (e :: e' :: rest) = some drawn) :
    ∃ a b : Fin n, e.1 = a ∧ e'.1 = b ∧
      drawLines c (drawLine c series a b e.2 e'.2) (e' :: rest) = some drawn := by
  obtain ⟨a, ha, h⟩ := Option.bind_eq_some_iff.1 h
  obtain ⟨b, hb, h⟩ := Option.bind_eq_some_iff.1 h
  exact ⟨a, b, Series.eq_of_period? ha, Series.eq_of_period? hb, h⟩

theorem getElem_drawLine_of_not_between {a b : Fin n} {v w : α} (h : ¬(a < r ∧ r < b)) :
    (drawLine c series a b v w)[r] = series[r] := by
  rw [drawLine, Series.getElem_ofFn, if_neg h]

theorem drawLines_outside (h : drawLines c series entries = some drawn)
    (hr : (∀ e ∈ entries, r.val ≤ e.1) ∨ ∀ e ∈ entries, e.1 ≤ r.val) : drawn[r] = series[r] := by
  induction entries generalizing series with
  | nil =>
    cases h
    rfl
  | cons e rest ih =>
    cases rest with
    | nil =>
      cases h
      rfl
    | cons e' rest =>
      obtain ⟨a, b, ha, hb, h⟩ := drawLines_cons h
      have hrest := hr.imp (fun h => (List.forall_mem_cons.1 h).2)
        fun h => (List.forall_mem_cons.1 h).2
      rw [ih h hrest, getElem_drawLine_of_not_between]
      rintro ⟨hafter, hbefore⟩
      have hafter : a.val < r.val := hafter
      have hbefore : r.val < b.val := hbefore
      rcases hr with hr | hr
      · have := hr e List.mem_cons_self
        omega
      · have := hr e' (by simp)
        omega

/-- A period is put on the line between the last entry up to it and the first one after it, unless
it has an entry. -/
theorem drawLines_between (hsorted : entries.Pairwise fun a b => a.1 < b.1)
    (h : drawLines c series entries = some drawn) {a b : Fin n} {v w : α}
    (ha : LastUpTo entries r (a, v)) (hb : FirstAfter entries r (b, w)) :
    drawn[r] = if a < r then onLine c a b r v w else series[r] := by
  induction entries generalizing series with
  | nil => cases ha.mem
  | cons e rest ih =>
    rw [List.pairwise_cons] at hsorted
    cases rest with
    | nil =>
      have hmem := hb.mem
      rw [← ha.eq_head (by simp), List.mem_singleton] at hmem
      have hsame : b.val = a.val := (Prod.mk.inj hmem).1
      have hlt : a.val < b.val := ha.le.trans_lt hb.lt
      omega
    | cons e' rest =>
      obtain ⟨a', b', ha', hb', hrest⟩ := drawLines_cons h
      have hfirst : e.1 < e'.1 := hsorted.1 e' List.mem_cons_self
      by_cases hr : e'.1 ≤ r.val
      · -- The first line ends before the period.
        rw [ih hsorted.2 hrest (ha.tail List.mem_cons_self hr hfirst)
          (hb.tail (hfirst.le.trans hr)), getElem_drawLine_of_not_between]
        rintro ⟨-, hlt⟩
        have : r.val < b'.val := hlt
        omega
      · -- The period is on the first line or at its start, and later lines are behind it.
        have hsecond := (List.pairwise_cons.1 hsorted.2).1
        have hlater : ∀ x ∈ e' :: rest, r.val < x.1 :=
          List.forall_mem_cons.2 ⟨not_le.1 hr, fun x hx => (not_le.1 hr).trans (hsecond x hx)⟩
        obtain rfl := ha.eq_head hlater
        obtain rfl := (hb.tail ha.le).eq_head (not_le.1 hr) hsecond
        obtain rfl : a = a' := Fin.ext ha'
        obtain rfl : b = b' := Fin.ext hb'
        rw [drawLines_outside hrest (.inl fun x hx => (hlater x hx).le), drawLine,
          Series.getElem_ofFn]
        simp [show r < b from hb.lt]

end Lines

section Given

variable {s : Sparse α} {default : α} {base : Series n α} {given : Series n Bool}

/-- If there are entries at all, the values carried forward fill the series. -/
theorem fill_of_mem {carried : Series n α} (h : s.carryForward c default = .ok carried)
    {e : ℕ × α} (he : e ∈ s.entries) :
    fill (Series.const n default) s.entries = some carried := by
  rcases carryForward_eq_ok h with ⟨hempty, -⟩ | ⟨-, hfill⟩
  · rw [hempty] at he
    cases he
  · exact hfill

variable [Quantity α]

theorem given_iff (h : s.interpolate c default = .ok (base, given)) :
    given[r] = true ↔ ∃ v, (r.val, v) ∈ s.entries := by
  obtain ⟨-, -, hmark, -⟩ := interpolate_eq_ok h
  rw [mark_iff hmark, Series.getElem_const]
  simp

/-- Every entry belongs to a period that is given. -/
theorem exists_given_of_mem (h : s.interpolate c default = .ok (base, given)) {e : ℕ × α}
    (he : e ∈ s.entries) : ∃ k : Fin n, k.val = e.1 ∧ given[k] = true := by
  obtain ⟨-, -, hmark, -⟩ := interpolate_eq_ok h
  exact ⟨⟨e.1, lt_of_mark hmark e he⟩, rfl, (given_iff h).2 ⟨e.2, he⟩⟩

theorem lastUpTo_of_given (h : s.interpolate c default = .ok (base, given)) {a : Fin n} {v : α}
    (ha : (a.val, v) ∈ s.entries) (har : a ≤ r)
    (hno : ∀ k, a < k → k ≤ r → given[k] = false) : LastUpTo s.entries r (a, v) := by
  refine ⟨ha, har, fun e he hr => ?_⟩
  obtain ⟨k, hk, hgiven⟩ := exists_given_of_mem h he
  by_contra hlt
  have hfalse := hno k (show a.val < k.val by omega) (show k.val ≤ r.val by omega)
  exact absurd (hgiven.symm.trans hfalse) nofun

theorem firstAfter_of_given (h : s.interpolate c default = .ok (base, given)) {b : Fin n} {w : α}
    (hb : (b.val, w) ∈ s.entries) (hrb : r < b)
    (hno : ∀ k, r < k → k < b → given[k] = false) : FirstAfter s.entries r (b, w) := by
  refine ⟨hb, hrb, fun e he hr => ?_⟩
  obtain ⟨k, hk, hgiven⟩ := exists_given_of_mem h he
  by_contra hlt
  have hfalse := hno k (show r.val < k.val by omega) (show k.val < b.val by omega)
  exact absurd (hgiven.symm.trans hfalse) nofun

/-- Behind the last entry every period has its value. -/
theorem interpolate_tail (h : s.interpolate c default = .ok (base, given)) {a : Fin n} {v : α}
    (ha : (a.val, v) ∈ s.entries) (har : a ≤ r) (hno : ∀ k, a < k → given[k] = false) :
    base[r] = v := by
  obtain ⟨carried, hcarried, -, hdraw⟩ := interpolate_eq_ok h
  have hlast := lastUpTo_of_given h ha har fun k hk _ => hno k hk
  have hbehind : ∀ e ∈ s.entries, e.1 ≤ r.val := by
    intro e he
    obtain ⟨k, hk, hgiven⟩ := exists_given_of_mem h he
    by_contra hlt
    have hak : a.val < k.val := by
      have : a.val ≤ r.val := har
      omega
    exact absurd (hgiven.symm.trans (hno k hak)) nofun
  rw [drawLines_outside hdraw (.inr hbehind)]
  exact fill_last s.increasing (fill_of_mem hcarried ha) hlast

/-- Nothing is given if no period is, and then every period has the default. -/
theorem interpolate_default (h : s.interpolate c default = .ok (base, given))
    (hno : ∀ k : Fin n, given[k] = false) : base = Series.const n default := by
  have hempty : s.entries = [] := by
    refine List.eq_nil_iff_forall_not_mem.2 fun e he => ?_
    obtain ⟨k, -, hgiven⟩ := exists_given_of_mem h he
    exact absurd (hgiven.symm.trans (hno k)) nofun
  obtain ⟨carried, hcarried, -, hdraw⟩ := interpolate_eq_ok h
  rcases carryForward_eq_ok hcarried with ⟨-, rfl⟩ | ⟨⟨v, hv⟩, -⟩
  · rw [hempty] at hdraw
    cases hdraw
    rfl
  · rw [hempty] at hv
    cases hv

theorem given_first (h : s.interpolate c default = .ok (base, given)) {k : Fin n}
    (hk : given[k] = true) : given[c.first] = true := by
  obtain ⟨v, hv⟩ := (given_iff h).1 hk
  obtain ⟨carried, hcarried, -⟩ := interpolate_eq_ok h
  rcases carryForward_eq_ok hcarried with ⟨hempty, -⟩ | ⟨hfirst, -⟩
  · rw [hempty] at hv
    cases hv
  · exact (given_iff h).2 hfirst

end Given

section Exact

variable [ExactQuantity α] {s : Sparse α} {default : α} {base : Series n α} {given : Series n Bool}
  {a b : Fin n}

theorem onLine_start (c : Calendar n) (a b : Fin n) (v w : α) : onLine c a b a v w = v := by
  simp [onLine, Calendar.span]

/-- A line from a point of another line to the end of that is a part of it. -/
theorem onLine_onLine (c : Calendar n) (hap : a ≤ p) (hpq : p ≤ q) (hqb : q < b) (v w : α) :
    onLine c p b q (onLine c a b p v w) w = onLine c a b q v w := by
  have hpb : (0 : α) < c.span p b := Nat.cast_pos.2 (c.span_pos (hpq.trans_lt hqb))
  have hab : (0 : α) < c.span a b := Nat.cast_pos.2 (c.span_pos (hap.trans_lt (hpq.trans_lt hqb)))
  have hsum : (c.span a p : α) + c.span p b = c.span a b := by
    rw [← Nat.cast_add, c.span_add hap (hpq.trans hqb.le)]
  have hsum' : (c.span a p : α) + c.span p q = c.span a q := by
    rw [← Nat.cast_add, c.span_add hap hpq]
  simp only [onLine, Quantity.whole_eq_cast]
  rw [← hsum', ← hsum]
  rw [← hsum] at hab
  field_simp
  ring

/-- Between two given periods the values are on the line. -/
theorem interpolate_line (h : s.interpolate c default = .ok (base, given)) {v w : α}
    (ha : (a.val, v) ∈ s.entries) (hb : (b.val, w) ∈ s.entries) (har : a ≤ r) (hrb : r < b)
    (hno : ∀ k, a < k → k < b → given[k] = false) : base[r] = onLine c a b r v w := by
  obtain ⟨carried, hcarried, -, hdraw⟩ := interpolate_eq_ok h
  have hlast := lastUpTo_of_given h ha har fun k hak hkr => hno k hak (hkr.trans_lt hrb)
  have hfirst := firstAfter_of_given h hb hrb fun k hrk hkb => hno k (har.trans_lt hrk) hkb
  rw [drawLines_between s.increasing hdraw hlast hfirst]
  split
  · rfl
  · next hle =>
    obtain rfl : a = r := le_antisymm har (not_lt.1 hle)
    rw [fill_last s.increasing (fill_of_mem hcarried ha) hlast, onLine_start]

/-- Given periods have the given values. -/
theorem interpolate_value (h : s.interpolate c default = .ok (base, given)) {v : α}
    (ha : (a.val, v) ∈ s.entries) : base[a] = v := by
  cases hnext : Series.nextAnchor given a with
  | none => exact interpolate_tail h ha le_rfl (Series.nextAnchor_eq_none.1 hnext)
  | some b =>
    obtain ⟨hab, hb, hno⟩ := Series.nextAnchor_eq_some hnext
    obtain ⟨w, hw⟩ := (given_iff h).1 hb
    rw [interpolate_line h ha hw le_rfl hab hno, onLine_start]

/-- Every given period has its value, the values between two neighbouring ones are on a line, and
those behind the last one are constant. The first period is given if any is. -/
structure Interpolated (c : Calendar n) (base : Series n α) (given : Series n Bool) : Prop where
  first_given : ∀ k : Fin n, given[k] = true → given[c.first] = true
  constant : (∀ k : Fin n, given[k] = false) → ∀ p q : Fin n, base[p] = base[q]
  line : ∀ a b r : Fin n, given[a] = true → given[b] = true → a ≤ r → r < b →
    (∀ k, a < k → k < b → given[k] = false) → base[r] = onLine c a b r base[a] base[b]
  tail : ∀ a r : Fin n, given[a] = true → a ≤ r → (∀ k, a < k → given[k] = false) →
    base[r] = base[a]

theorem interpolated_interpolate (h : s.interpolate c default = .ok (base, given)) :
    Interpolated c base given where
  first_given k hk := given_first h hk
  constant hno p q := by
    rw [interpolate_default h hno, Series.getElem_const, Series.getElem_const]
  line a b r ha hb har hrb hno := by
    obtain ⟨v, hv⟩ := (given_iff h).1 ha
    obtain ⟨w, hw⟩ := (given_iff h).1 hb
    rw [interpolate_line h hv hw har hrb hno, interpolate_value h hv, interpolate_value h hw]
  tail a r ha har hno := by
    obtain ⟨v, hv⟩ := (given_iff h).1 ha
    rw [interpolate_tail h hv har hno, interpolate_value h hv]

namespace Interpolated

/-- Up to any period there is a last one that is given, if any is. -/
theorem exists_last (h : Interpolated c base given) {k : Fin n} (hk : given[k] = true)
    (p : Fin n) :
    ∃ a ≤ p, given[a] = true ∧ ∀ k, a < k → k ≤ p → given[k] = false := by
  have hfirst : c.first ∈ Finset.univ.filter fun a : Fin n => a ≤ p ∧ given[a] = true :=
    Finset.mem_filter.2 ⟨Finset.mem_univ _, Nat.zero_le _, h.first_given k hk⟩
  obtain ⟨a, ha, hlast⟩ := Finset.exists_max_image _ id ⟨_, hfirst⟩
  obtain ⟨-, hap, hgiven⟩ := Finset.mem_filter.1 ha
  refine ⟨a, hap, hgiven, fun k hak hkp => ?_⟩
  by_contra hk
  have hle := hlast k (Finset.mem_filter.2 ⟨Finset.mem_univ _, hkp, by simpa using hk⟩)
  exact absurd hak (not_lt.2 hle)

/-- Carrying forward from a period its own value changes nothing. -/
theorem carryFrom_self (h : Interpolated c base given) (p : Fin n) :
    base.carryFrom c p base[p] given = base := by
  refine Series.ext fun q => ?_
  by_cases hqp : q ≤ p
  · exact Series.getElem_carryFrom_of_le hqp
  have hpq := not_le.1 hqp
  unfold Series.carryFrom
  cases hnext : Series.nextAnchor given p with
  | none =>
    have hno := Series.nextAnchor_eq_none.1 hnext
    dsimp only
    rw [Series.getElem_fillFrom, if_pos (Nat.succ_le_of_lt hpq)]
    by_cases hsome : ∃ k : Fin n, given[k] = true
    · obtain ⟨k, hk⟩ := hsome
      obtain ⟨a, hap, ha, hlast⟩ := h.exists_last hk p
      have hbehind : ∀ k, a < k → given[k] = false := by
        intro k hak
        rcases le_or_gt k p with hkp | hpk
        · exact hlast k hak hkp
        · exact hno k hpk
      rw [h.tail a p ha hap hbehind, h.tail a q ha (hap.trans hpq.le) hbehind]
    · exact h.constant (fun k => by simpa using fun hk => hsome ⟨k, hk⟩) p q
  | some b =>
    obtain ⟨hpb, hb, hno⟩ := Series.nextAnchor_eq_some hnext
    dsimp only
    rw [Series.getElem_interpolateFrom]
    split
    · next hbetween =>
      -- The period is on a line that starts at the last given period and passes through the other.
      obtain ⟨a, hap, ha, hlast⟩ := h.exists_last hb p
      have hgap : ∀ k, a < k → k < b → given[k] = false := by
        intro k hak hkb
        rcases le_or_gt k p with hkp | hpk
        · exact hlast k hak hkp
        · exact hno k hpk hkb
      rw [h.line a b p ha hb hap hpb hgap,
        h.line a b q ha hb (hap.trans hpq.le) hbetween.2 hgap]
      exact onLine_onLine c hap hpq.le hbetween.2 _ _
    · rfl

end Interpolated

end Exact

end Sparse

namespace Series

variable [Quantity α] {s : Series n α} {value : α} {anchors : Series n Bool}

/-- What is carried forward does not get past an anchor. -/
theorem getElem_carryFrom_of_anchor_between {k : Fin n} (hpk : p < k) (hkq : k ≤ q)
    (hk : anchors[k] = true) : (s.carryFrom c p value anchors)[q] = s[q] := by
  unfold carryFrom
  cases hnext : nextAnchor anchors p with
  | none => exact absurd (hk.symm.trans (nextAnchor_eq_none.1 hnext k hpk)) nofun
  | some b =>
    dsimp only
    rw [getElem_interpolateFrom, if_neg]
    rintro ⟨-, hqb⟩
    have hno := (nextAnchor_eq_some hnext).2.2 k hpk (hkq.trans_lt hqb)
    exact absurd (hk.symm.trans hno) nofun

/-- A value that is carried forward changes periods behind its own, up to the next anchor. -/
theorem carryFrom_changes (h : (s.carryFrom c p value anchors)[q] ≠ s[q]) :
    p < q ∧ ∀ k, p < k → k ≤ q → anchors[k] = false := by
  constructor
  · by_contra hle
    exact h (getElem_carryFrom_of_le (not_lt.1 hle))
  · intro k hpk hkq
    by_contra hk
    exact h (getElem_carryFrom_of_anchor_between hpk hkq (by simpa using hk))

end Series

/-- What carrying a value forward consists of: to the next anchor it is an interpolation between two
periods in order, and without an anchor it is a filling that starts no later than at the end. -/
theorem Series.carryFrom_checked [Quantity α] (s : Series n α) (c : Calendar n) (p : Fin n)
    (value : α) (anchors : Series n Bool) :
    match nextAnchor anchors p with
    | some b => s.interpolateFrom? c p value b = some (s.carryFrom c p value anchors)
    | none => s.fillFrom? (p + 1) value = some (s.carryFrom c p value anchors) := by
  unfold carryFrom
  cases hnext : nextAnchor anchors p with
  | none => exact if_pos p.isLt
  | some b => simp [interpolateFrom?, Calendar.period?, period?_val, (nextAnchor_eq_some hnext).1]

namespace Sparse

/-- Interpolation and carrying forward agree: to carry forward from any period the value that the
interpolation gives it changes nothing, and any other value changes periods behind it only, up to
the next given one. Whatever is carried forward, differences of years are taken from the later year,
and the one that is divided by is not zero. -/
theorem interpolate_carryFrom [ExactQuantity α] {s : Sparse α} {default : α} {base : Series n α}
    {given : Series n Bool} (h : s.interpolate c default = .ok (base, given)) (p : Fin n) :
    base.carryFrom c p base[p] given = base ∧
      ∀ value : α,
        (∀ q : Fin n, (base.carryFrom c p value given)[q] ≠ base[q] →
          p < q ∧ ∀ k, p < k → k ≤ q → given[k] = false) ∧
        match Series.nextAnchor given p with
        | some b => base.interpolateFrom? c p value b = some (base.carryFrom c p value given) ∧
            (∀ k, p ≤ k → k ≤ b → c.year p + c.span p k = c.year k) ∧
            (Quantity.whole (c.span p b) : α) ≠ 0
        | none => base.fillFrom? (p + 1) value = some (base.carryFrom c p value given) := by
  refine ⟨(interpolated_interpolate h).carryFrom_self p, fun value => ?_⟩
  refine ⟨fun q => Series.carryFrom_changes, ?_⟩
  have hchecked := base.carryFrom_checked c p value given
  cases hnext : Series.nextAnchor given p with
  | none =>
    rw [hnext] at hchecked
    exact hchecked
  | some b =>
    rw [hnext] at hchecked
    refine ⟨hchecked, fun k hpk _ => c.year_add_span hpk, ?_⟩
    rw [Quantity.whole_eq_cast]
    exact Nat.cast_ne_zero.2 (c.span_pos (Series.nextAnchor_eq_some hnext).1).ne'

/-- Five periods of uneven length. -/
def unevenYears : Calendar 5 where
  years := ⟨#v[2005, 2010, 2020, 2025, 2040]⟩
  nonempty := by decide
  increasing := by decide

/-- Share weights for the first and the fourth of them. -/
def sparseWeights : Sparse ℚ :=
  .ofList [(0, 1), (3, 5)]

theorem sparseWeights_carryFrom :
    let base : Series 5 ℚ := ⟨#v[1, 2, 4, 5, 5]⟩
    let given : Series 5 Bool := ⟨#v[true, false, false, true, false]⟩
    sparseWeights.interpolate unevenYears 0 = .ok (base, given) ∧
      base.carryFrom unevenYears 1 base[(1 : Fin 5)] given = base ∧
      ∀ value : ℚ,
        (∀ q : Fin 5, (base.carryFrom unevenYears 1 value given)[q] ≠ base[q] →
          1 < q ∧ ∀ k, 1 < k → k ≤ q → given[k] = false) ∧
        match Series.nextAnchor given 1 with
        | some b =>
          base.interpolateFrom? unevenYears 1 value b
              = some (base.carryFrom unevenYears 1 value given) ∧
            (∀ k, 1 ≤ k → k ≤ b →
              unevenYears.year 1 + unevenYears.span 1 k = unevenYears.year k) ∧
            (Quantity.whole (unevenYears.span 1 b) : ℚ) ≠ 0
        | none => base.fillFrom? 2 value = some (base.carryFrom unevenYears 1 value given) := by
  intro base given
  have h : sparseWeights.interpolate unevenYears 0 = .ok (base, given) := by decide +kernel
  exact ⟨h, interpolate_carryFrom h 1⟩

end Sparse

end NestedLogit
