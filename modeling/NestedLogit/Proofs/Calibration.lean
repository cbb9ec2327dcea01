import NestedLogit.Proofs.Quantity.Exact
import NestedLogit.Subsector

/-!
# What is carried forward

Carrying a value forward fills the periods behind the one that it comes from, up to the next anchor.
It leaves alone what comes before and every anchor, and over exact quantities it puts nothing
outside of the bounds that the value and the anchor keep to.

## Main statements

- `Series.nextAnchor_eq_some`, `Series.nextAnchor_eq_none` — where the next anchor is
- `Series.getElem_carryFrom_of_le`, `Series.getElem_carryFrom_of_anchored` — what is left alone
- `Series.getElem_carryFrom_of_no_anchor` — the value reaches every later period
- `Series.carryFrom_nonneg` — no negative value comes in
- `Technology.baseShareWeight_carryForward`, `Subsector.baseShareWeight_carryForward` — what is
  carried forward where
- `Subsector.anchors_carryForward` — anchors stay
-/

namespace NestedLogit.Series

variable {n : Nat} {α : Type} {p q : Fin n} {anchors : Series n Bool}

theorem nextAnchor_eq_some (h : nextAnchor anchors p = some q) :
    p < q ∧ anchors[q] = true ∧ ∀ k, p < k → k < q → anchors[k] = false := by
  rw [nextAnchor, List.find?_eq_some_iff_getElem] at h
  obtain ⟨hfound, i, hi, hq, hbefore⟩ := h
  rw [List.getElem_finRange, Fin.cast_mk] at hq
  simp only [Bool.and_eq_true, decide_eq_true_eq] at hfound
  refine ⟨hfound.1, hfound.2, fun k hpk hkq => ?_⟩
  have hlt : k.val < i := by
    have hval : i = q.val := congrArg Fin.val hq
    exact hval ▸ hkq
  have hk := hbefore k hlt
  simpa [hpk] using hk

theorem nextAnchor_eq_none : nextAnchor anchors p = none ↔ ∀ q, p < q → anchors[q] = false := by
  rw [nextAnchor, List.find?_eq_none]
  simp

variable [Quantity α] {s : Series n α} {c : Calendar n} {value : α}

theorem getElem_interpolateFrom (s : Series n α) (c : Calendar n) (a : Fin n) (value : α)
    (b q : Fin n) : (s.interpolateFrom c a value b)[q] =
      if a < q ∧ q < b then Sparse.onLine c a b q value s[b] else s[q] :=
  getElem_ofFn _ _

/-- Carrying forward does not reach back. -/
theorem getElem_carryFrom_of_le (h : q ≤ p) : (s.carryFrom c p value anchors)[q] = s[q] := by
  unfold carryFrom
  cases nextAnchor anchors p with
  | none => rw [getElem_fillFrom, if_neg (Nat.not_le.2 (Nat.lt_succ_of_le h))]
  | some b =>
    dsimp only
    rw [getElem_interpolateFrom, if_neg fun hbetween => absurd hbetween.1 (not_lt.2 h)]

/-- Anchors keep their values. -/
theorem getElem_carryFrom_of_anchored (h : anchors[q] = true) :
    (s.carryFrom c p value anchors)[q] = s[q] := by
  by_cases hle : q ≤ p
  · exact getElem_carryFrom_of_le hle
  · have hpq := not_le.1 hle
    unfold carryFrom
    cases hnext : nextAnchor anchors p with
    | none => exact absurd (h.symm.trans (nextAnchor_eq_none.1 hnext q hpq)) nofun
    | some b =>
      dsimp only
      rw [getElem_interpolateFrom, if_neg fun hbetween => ?_]
      have hno := (nextAnchor_eq_some hnext).2.2 q hpq hbetween.2
      exact absurd (h.symm.trans hno) nofun

/-- Without an anchor behind it a value is carried forward to the end. -/
theorem getElem_carryFrom_of_no_anchor (h : ∀ q, p < q → anchors[q] = false) (hpq : p < q) :
    (s.carryFrom c p value anchors)[q] = value := by
  rw [carryFrom, nextAnchor_eq_none.2 h]
  dsimp only
  rw [getElem_fillFrom, if_pos (Nat.succ_le_of_lt hpq)]

end NestedLogit.Series

namespace NestedLogit

section Members

variable {n : Nat} {α : Type} [Quantity α]

theorem Technology.baseShareWeight_carryForward (t : Technology n α) (c : Calendar n) (p : Fin n) :
    (t.carryForward c p).baseShareWeight =
      if t.results[p].recalibrated then
        t.baseShareWeight.carryFrom c p t.results[p].shareWeight t.anchors
      else t.baseShareWeight := by
  unfold carryForward
  split <;> rfl

theorem Technology.parameters_carryForward (t : Technology n α) (c : Calendar n) (p : Fin n) :
    (t.carryForward c p).parameters = t.parameters := by
  unfold carryForward
  split <;> rfl

theorem Technology.fuel_carryForward (t : Technology n α) (c : Calendar n) (p : Fin n) :
    (t.carryForward c p).fuel = t.fuel := by
  unfold carryForward
  split <;> rfl

theorem Technology.results_carryForward (t : Technology n α) (c : Calendar n) (p : Fin n) :
    (t.carryForward c p).results = t.results := by
  unfold carryForward
  split <;> rfl

namespace Subsector

variable (x : Subsector n α) (c : Calendar n) (p : Fin n)

theorem baseShareWeight_carryForward :
    (x.carryForward c p).baseShareWeight =
      if x.results[p].calibrated then
        x.baseShareWeight.carryFrom c p x.results[p].shareWeight x.anchors
      else x.baseShareWeight := by
  unfold carryForward
  dsimp only
  split <;> rfl

theorem parameters_carryForward : (x.carryForward c p).parameters = x.parameters := by
  unfold carryForward
  dsimp only
  split <;> rfl

theorem results_carryForward : (x.carryForward c p).results = x.results := by
  unfold carryForward
  dsimp only
  split <;> rfl

theorem technologies_carryForward :
    (x.carryForward c p).technologies = x.technologies.map (·.carryForward c p) := by
  unfold carryForward
  dsimp only
  split <;> rfl

theorem isCalibratable_carryForward (q : Fin n) :
    (x.carryForward c p).isCalibratable q = x.isCalibratable q := by
  have hvariable : (x.carryForward c p).variableTechnologies q
      = (x.variableTechnologies q).map (·.carryForward c p) := by
    rw [variableTechnologies, technologies_carryForward, List.filter_map, variableTechnologies]
    refine congrArg _ (List.filter_congr fun t _ => ?_)
    rw [Function.comp_apply, Technology.isFixed, Technology.isFixed, t.parameters_carryForward]
  have hcalibrated : (fun t : Technology n α => (t.carryForward c p).isCalibrated q)
      = fun t => t.isCalibrated q := by
    funext t
    rw [Technology.isCalibrated, Technology.isCalibrated, t.parameters_carryForward]
  rw [isCalibratable, isCalibratable, hvariable, List.isEmpty_map, List.all_map]
  exact congrArg _ (congrArg _ hcalibrated)

theorem anchors_carryForward : (x.carryForward c p).anchors = x.anchors := by
  refine Series.ext fun q => ?_
  rw [anchors, anchors, Series.getElem_ofFn, Series.getElem_ofFn, isCalibratable_carryForward,
    parameters_carryForward]

end Subsector

end Members

variable {n : Nat} {α : Type} [ExactQuantity α] {p q : Fin n}

/-- A value on the line between two others is a weighted mean of them. -/
theorem Sparse.onLine_nonneg (c : Calendar n) {a b : Fin n} (hap : a < p) (hpb : p < b)
    {fromValue toValue : α} (hfrom : 0 ≤ fromValue) (hto : 0 ≤ toValue) :
    0 ≤ onLine c a b p fromValue toValue := by
  have hspan : (0 : α) < c.span a b := Nat.cast_pos.2 (c.span_pos (hap.trans hpb))
  have hpart : (c.span a p : α) ≤ c.span a b :=
    Nat.cast_le.2 (Nat.sub_le_sub_right (c.increasing p b hpb).le _)
  have hfraction : (c.span a p : α) / c.span a b ≤ 1 := (div_le_one hspan).2 hpart
  have hnonneg : (0 : α) ≤ (c.span a p : α) / c.span a b :=
    div_nonneg (Nat.cast_nonneg _) hspan.le
  have hmean : onLine c a b p fromValue toValue
      = fromValue * (1 - (c.span a p : α) / c.span a b)
        + toValue * ((c.span a p : α) / c.span a b) := by
    rw [onLine, Quantity.whole_eq_cast, Quantity.whole_eq_cast]
    ring
  rw [hmean]
  exact add_nonneg (mul_nonneg hfrom (sub_nonneg.2 hfraction)) (mul_nonneg hto hnonneg)

/-- Nothing negative comes of carrying forward what is not negative. -/
theorem Series.carryFrom_nonneg {s : Series n α} (hs : ∀ q : Fin n, 0 ≤ s[q]) (c : Calendar n)
    (p : Fin n) {value : α} (hvalue : 0 ≤ value) (anchors : Series n Bool) (q : Fin n) :
    0 ≤ (s.carryFrom c p value anchors)[q] := by
  unfold carryFrom
  cases nextAnchor anchors p with
  | none =>
    rw [getElem_fillFrom]
    split
    · exact hvalue
    · exact hs q
  | some b =>
    dsimp only
    rw [getElem_interpolateFrom]
    split
    · next hbetween => exact Sparse.onLine_nonneg c hbetween.1 hbetween.2 hvalue (hs b)
    · exact hs q

end NestedLogit
