import Mathlib.Algebra.Order.Ring.Pow
import NestedLogit.Proofs.Choice.Remainder

/-!
# When the passes settle

The passes end by themselves as soon as every target is met within the tolerance. From the first
pass on nobody misses a target on one of the two sides: shares are not too small while the total
logit weight falls, and not too large while it rises, and each of the two goes on as it began. A pass
that still finds a target missed moves the total by the tolerance at least. So the part of those
without a target grows or falls in every pass that is not the last one, and once passes for a bit
more and for a bit less than the targets are near enough to each other, there is no room for that.

## Main definitions

- `Met` — every target is met within the tolerance
- `Settles` — some number of passes within the bound meets every target
- `NoneBelow`, `NoneAbove` — nobody misses a target on one side
- `Narrow` — little room is left for the part of those without a target

## Main statements

- `Partial.noneBelow_or_noneAbove` — what the first pass leads to
- `Partial.aimedPull_adjusted_le`, `Partial.le_aimedPull_adjusted` — where the total moves
- `Partial.rises`, `Partial.falls` — what a pass does that finds a target missed
- `Partial.settles_of_narrow` — passes settle if little room is left
-/

namespace NestedLogit

variable {α : Type} [ExactQuantity α]

/-- Every target is met within the tolerance. -/
def Met (aims : List (Aim α)) : Prop :=
  ∀ x ∈ aims, ∀ t, x.target = some t → |x.pull / aimedPull aims - t| ≤ recalibrationTolerance

/-- Some number of passes within the bound meets every target, so that the passes end with it. -/
def Settles (aims : List (Aim α)) : Prop :=
  ∃ k ≤ maxRecalibrationPasses, Met (adjusted^[k] aims)

/-- Nobody has less than the target by more than the tolerance. -/
def NoneBelow (aims : List (Aim α)) : Prop :=
  ∀ x ∈ aims, ∀ t, x.target = some t → t - recalibrationTolerance ≤ x.pull / aimedPull aims

/-- Nobody has more than the target by more than the tolerance. -/
def NoneAbove (aims : List (Aim α)) : Prop :=
  ∀ x ∈ aims, ∀ t, x.target = some t → x.pull / aimedPull aims ≤ t + recalibrationTolerance

/-- So little room is left for the part of those without a target after a number of passes that it
cannot go on to grow or to fall by the tolerance in each pass that is left. -/
def Narrow (aims : List (Aim α)) (k : ℕ) : Prop :=
  mostRest aims maxRecalibrationPasses
      < (1 + (maxRecalibrationPasses - k : ℕ) * recalibrationTolerance) * leastRest aims k ∧
    mostRest aims k < (1 + (maxRecalibrationPasses - k : ℕ) * recalibrationTolerance)
      * leastRest aims maxRecalibrationPasses

section Met

variable {aims : List (Aim α)}

theorem Aim.adjust_of_near {x : Aim α} {share t : α} (ht : x.target = some t)
    (hnear : |share - t| ≤ recalibrationTolerance) : x.adjust share = x := by
  refine adjust_of_none ?_
  rw [adjustment, ht]
  exact if_pos (by simp [Quantity.magnitude_eq_abs, hnear])

/-- A pass over targets that are met changes nothing. -/
theorem Met.adjusted (h : Met aims) : adjusted aims = aims := by
  refine (List.map_congr_left fun x hx => ?_).trans (List.map_id' _)
  cases ht : x.target with
  | none => exact Aim.adjust_of_no_target ht
  | some t => exact Aim.adjust_of_near ht (h x hx t ht)

theorem exists_missed (h : ¬Met aims) : ∃ x ∈ aims, ∃ t, x.target = some t ∧
    recalibrationTolerance < |x.pull / aimedPull aims - t| := by
  unfold Met at h
  push Not at h
  exact h

/-- Passes settle exactly if the last state meets every target. -/
theorem settles_iff : Settles aims ↔ Met (NestedLogit.adjusted^[maxRecalibrationPasses] aims) := by
  refine ⟨fun ⟨k, hk, hmet⟩ => ?_, fun hmet => ⟨_, le_rfl, hmet⟩⟩
  rw [← Nat.sub_add_cancel hk, Function.iterate_add_apply, Function.iterate_fixed hmet.adjusted]
  exact hmet

end Met

/-- A sum exceeds another one by what one member does, if no member is less. -/
theorem sum_map_add_le {β : Type} {f g : β → α} {xs : List β} {x : β} {gap : α}
    (hle : ∀ x ∈ xs, f x ≤ g x) (hx : x ∈ xs) (hgap : f x + gap ≤ g x) :
    (xs.map f).sum + gap ≤ (xs.map g).sum := by
  induction xs with
  | nil => cases hx
  | cons y ys ih =>
    rw [List.forall_mem_cons] at hle
    rw [List.map_cons, List.map_cons, List.sum_cons, List.sum_cons]
    rcases List.mem_cons.1 hx with rfl | hmem
    · linarith [List.sum_le_sum hle.2]
    · linarith [hle.1, ih hle.2 hmem]

namespace Partial

variable {aims : List (Aim α)}

/-- A pass leaves a logit weight that is at its target, and brings any other to the target. -/
theorem pull_adjust_cases (h : Partial aims) {x : Aim α} (hx : x ∈ aims) {t : α}
    (ht : x.target = some t) :
    |x.pull / aimedPull aims - t| ≤ recalibrationTolerance ∧
        (x.adjust (x.pull / aimedPull aims)).pull = x.pull ∨
      recalibrationTolerance < |x.pull / aimedPull aims - t| ∧
        (x.adjust (x.pull / aimedPull aims)).pull = t * aimedPull aims := by
  by_cases hnear : |x.pull / aimedPull aims - t| ≤ recalibrationTolerance
  · exact .inl ⟨hnear, by rw [Aim.adjust_of_near ht hnear]⟩
  · refine .inr ⟨not_le.1 hnear, ?_⟩
    have hcases := Aim.adjust_cases (h.aimed hx ht) h.aimedPull_pos
    rw [Aim.goal_of_target ht] at hcases
    rcases hcases with ⟨hmet, -⟩ | heq | ⟨hzero, -, -⟩
    · exact absurd hmet hnear
    · exact heq
    · exact absurd hzero (h.pull_pos hx).ne'

/-- If a pass does not raise the total logit weight, nobody has too little after it. -/
theorem noneBelow_adjusted (h : Partial aims) (hle : aimedPull (adjusted aims) ≤ aimedPull aims) :
    NoneBelow (adjusted aims) := by
  refine List.forall_mem_map.2 fun x hx t htarget => ?_
  have ht : x.target = some t := (x.recalibrated_adjust _).target ▸ htarget
  have hpos := h.pass.aimedPull_pos
  have htol : (0 : α) < recalibrationTolerance := recalibrationTolerance_pos
  rcases h.pull_adjust_cases hx ht with ⟨hnear, heq⟩ | ⟨-, heq⟩
  · have hshare := div_le_div_of_nonneg_left (h.pull_pos hx).le hpos hle
    rw [heq]
    linarith [(abs_le.1 hnear).1]
  · have hshare := mul_le_mul_of_nonneg_left hle (h.goal_pos hx ht).le
    rw [heq, le_div_iff₀ hpos]
    linarith [mul_pos htol hpos]

/-- If a pass does not lower the total logit weight, nobody has too much after it. -/
theorem noneAbove_adjusted (h : Partial aims) (hle : aimedPull aims ≤ aimedPull (adjusted aims)) :
    NoneAbove (adjusted aims) := by
  refine List.forall_mem_map.2 fun x hx t htarget => ?_
  have ht : x.target = some t := (x.recalibrated_adjust _).target ▸ htarget
  have hpos := h.pass.aimedPull_pos
  have htol : (0 : α) < recalibrationTolerance := recalibrationTolerance_pos
  rcases h.pull_adjust_cases hx ht with ⟨hnear, heq⟩ | ⟨-, heq⟩
  · have hshare := div_le_div_of_nonneg_left (h.pull_pos hx).le h.aimedPull_pos hle
    rw [heq]
    linarith [(abs_le.1 hnear).2]
  · have hshare := mul_le_mul_of_nonneg_left hle (h.goal_pos hx ht).le
    rw [heq, div_le_iff₀ hpos]
    linarith [mul_pos htol hpos]

/-- After a pass nobody has too little, or nobody has too much. -/
theorem noneBelow_or_noneAbove (h : Partial aims) :
    NoneBelow (adjusted aims) ∨ NoneAbove (adjusted aims) :=
  (le_total _ _).imp h.noneBelow_adjusted h.noneAbove_adjusted

/-- If nobody has too little, a pass raises no logit weight and lowers those that miss their
targets. -/
theorem pull_adjust_le (h : Partial aims) (hbelow : NoneBelow aims) {x : Aim α} (hx : x ∈ aims) :
    (x.adjust (x.pull / aimedPull aims)).pull ≤ x.pull ∧
      ∀ t, x.target = some t → recalibrationTolerance < |x.pull / aimedPull aims - t| →
        (x.adjust (x.pull / aimedPull aims)).pull + recalibrationTolerance * aimedPull aims
          ≤ x.pull := by
  have hpos := h.aimedPull_pos
  have htol : (0 : α) < recalibrationTolerance := recalibrationTolerance_pos
  cases ht : x.target with
  | none => exact ⟨by rw [Aim.adjust_of_no_target ht], by simp⟩
  | some t =>
    rcases h.pull_adjust_cases hx ht with ⟨hnear, heq⟩ | ⟨hmissed, heq⟩
    · refine ⟨heq.le, ?_⟩
      rintro _ ⟨⟩ hfar
      exact absurd hnear (not_le.2 hfar)
    · have hleast := hbelow x hx t ht
      have hlarge : t + recalibrationTolerance < x.pull / aimedPull aims := by
        rcases lt_abs.1 hmissed with hfar | hfar <;> linarith
      have hfall := (lt_div_iff₀ hpos).1 hlarge
      rw [heq]
      refine ⟨?_, fun _ _ _ => ?_⟩ <;> linarith [mul_pos htol hpos]

/-- If nobody has too much, a pass lowers no logit weight and raises those that miss their
targets. -/
theorem le_pull_adjust (h : Partial aims) (habove : NoneAbove aims) {x : Aim α} (hx : x ∈ aims) :
    x.pull ≤ (x.adjust (x.pull / aimedPull aims)).pull ∧
      ∀ t, x.target = some t → recalibrationTolerance < |x.pull / aimedPull aims - t| →
        x.pull + recalibrationTolerance * aimedPull aims
          ≤ (x.adjust (x.pull / aimedPull aims)).pull := by
  have hpos := h.aimedPull_pos
  have htol : (0 : α) < recalibrationTolerance := recalibrationTolerance_pos
  cases ht : x.target with
  | none => exact ⟨by rw [Aim.adjust_of_no_target ht], by simp⟩
  | some t =>
    rcases h.pull_adjust_cases hx ht with ⟨hnear, heq⟩ | ⟨hmissed, heq⟩
    · refine ⟨heq.ge, ?_⟩
      rintro _ ⟨⟩ hfar
      exact absurd hnear (not_le.2 hfar)
    · have hmost := habove x hx t ht
      have hsmall : x.pull / aimedPull aims < t - recalibrationTolerance := by
        rcases lt_abs.1 hmissed with hfar | hfar <;> linarith
      have hrise := (div_lt_iff₀ hpos).1 hsmall
      rw [heq]
      refine ⟨?_, fun _ _ _ => ?_⟩ <;> linarith [mul_pos htol hpos]

/-- If nobody has too little, a pass does not raise the total logit weight, and it lowers the total by
the tolerance if a target is missed. -/
theorem aimedPull_adjusted_le (h : Partial aims) (hbelow : NoneBelow aims) :
    aimedPull (adjusted aims) ≤ aimedPull aims ∧
      (¬Met aims → aimedPull (adjusted aims) + recalibrationTolerance * aimedPull aims
        ≤ aimedPull aims) := by
  have hmove := fun x (hx : x ∈ aims) => h.pull_adjust_le hbelow hx
  rw [aimedPull_adjusted]
  refine ⟨List.sum_le_sum fun x hx => (hmove x hx).1, fun hmissed => ?_⟩
  obtain ⟨x, hx, t, ht, hfar⟩ := exists_missed hmissed
  exact sum_map_add_le (fun x hx => (hmove x hx).1) hx ((hmove x hx).2 t ht hfar)

/-- If nobody has too much, a pass does not lower the total logit weight, and it raises the total by
the tolerance if a target is missed. -/
theorem le_aimedPull_adjusted (h : Partial aims) (habove : NoneAbove aims) :
    aimedPull aims ≤ aimedPull (adjusted aims) ∧
      (¬Met aims → aimedPull aims + recalibrationTolerance * aimedPull aims
        ≤ aimedPull (adjusted aims)) := by
  have hmove := fun x (hx : x ∈ aims) => h.le_pull_adjust habove hx
  rw [aimedPull_adjusted]
  refine ⟨List.sum_le_sum fun x hx => (hmove x hx).1, fun hmissed => ?_⟩
  obtain ⟨x, hx, t, ht, hfar⟩ := exists_missed hmissed
  exact sum_map_add_le (fun x hx => (hmove x hx).1) hx ((hmove x hx).2 t ht hfar)

/-- If nobody has too little, this stays so in a pass, and the part of those without a target grows
by the tolerance if a target is missed. -/
theorem rises (h : Partial aims) (hbelow : NoneBelow aims) :
    NoneBelow (adjusted aims) ∧
      (¬Met aims → (1 + recalibrationTolerance) * restShare aims ≤ restShare (adjusted aims)) := by
  have hpos := h.aimedPull_pos
  have hnext := h.pass.restShare_pos
  have htol : (0 : α) < recalibrationTolerance := recalibrationTolerance_pos
  obtain ⟨hle, hfall⟩ := h.aimedPull_adjusted_le hbelow
  refine ⟨h.noneBelow_adjusted hle, fun hmissed => ?_⟩
  -- The part of the others times the total is the same before and after.
  have hsame := restShare_mul_adjusted h
  have hgrown := mul_le_mul_of_nonneg_left (hfall hmissed) hnext.le
  have hpart : restShare aims ≤ (1 - recalibrationTolerance) * restShare (adjusted aims) := by
    refine le_of_mul_le_mul_right ?_ hpos
    linarith
  have hscaled := mul_le_mul_of_nonneg_left hpart (add_pos zero_lt_one htol).le
  have hsquare := mul_pos (mul_pos htol htol) hnext
  linarith

/-- If nobody has too much, this stays so in a pass, and the part of those without a target falls by
the tolerance if a target is missed. -/
theorem falls (h : Partial aims) (habove : NoneAbove aims) :
    NoneAbove (adjusted aims) ∧
      (¬Met aims →
        (1 + recalibrationTolerance) * (restShare aims)⁻¹ ≤ (restShare (adjusted aims))⁻¹) := by
  have hpos := h.aimedPull_pos
  have hnext := h.pass.restShare_pos
  obtain ⟨hle, hrise⟩ := h.le_aimedPull_adjusted habove
  refine ⟨h.noneAbove_adjusted hle, fun hmissed => ?_⟩
  have hsame := restShare_mul_adjusted h
  have hgrown := mul_le_mul_of_nonneg_left (hrise hmissed) hnext.le
  rw [← div_eq_mul_inv, div_le_iff₀ h.restShare_pos, inv_mul_eq_div, le_div_iff₀ hnext]
  refine le_of_mul_le_mul_right ?_ hpos
  linarith

/-- What grows by the tolerance in every pass from one side that finds a target missed grows at a
compound rate. -/
theorem drifts {side : List (Aim α) → Prop} {size : List (Aim α) → α}
    (hpass : ∀ {aims}, Partial aims → side aims → side (adjusted aims) ∧
      (¬Met aims → (1 + recalibrationTolerance) * size aims ≤ size (adjusted aims)))
    (h : Partial aims) (hside : side aims) (n : ℕ) (hmissed : ∀ j < n, ¬Met (adjusted^[j] aims)) :
    side (adjusted^[n] aims) ∧
      (1 + recalibrationTolerance) ^ n * size aims ≤ size (adjusted^[n] aims) := by
  have htol : (0 : α) < recalibrationTolerance := recalibrationTolerance_pos
  induction n with
  | zero => exact ⟨hside, by simp⟩
  | succ n ih =>
    obtain ⟨hstill, hgrown⟩ := ih fun j hj => hmissed j (hj.trans (Nat.lt_succ_self n))
    obtain ⟨hnext, hstep⟩ := hpass (h.iterate n) hstill
    have hscaled := mul_le_mul_of_nonneg_left hgrown (add_pos zero_lt_one htol).le
    rw [Function.iterate_succ_apply', pow_succ', mul_assoc]
    exact ⟨hnext, hscaled.trans (hstep (hmissed n (Nat.lt_succ_self n)))⟩

/-- The passes settle if so little room is left after one or more of them that the others cannot
find a target missed each time. -/
theorem settles_of_narrow (h : Partial aims) {k : ℕ} (hfirst : 1 ≤ k)
    (hlast : k ≤ maxRecalibrationPasses) (hnarrow : Narrow aims k) : Settles aims := by
  have htol : (0 : α) < recalibrationTolerance := recalibrationTolerance_pos
  by_contra hopen
  have hmissed : ∀ j < maxRecalibrationPasses - k, ¬Met (adjusted^[j] (adjusted^[k] aims)) := by
    intro j hj hmet
    rw [← Function.iterate_add_apply] at hmet
    exact hopen ⟨j + k, by omega, hmet⟩
  have hcompound := one_add_mul_le_pow (a := (recalibrationTolerance : α)) (by linarith)
    (maxRecalibrationPasses - k)
  obtain ⟨hgrowth, hfall⟩ := hnarrow
  obtain ⟨hleast, hmost⟩ := h.restShare_iterate_mem k
  obtain ⟨hleast', hmost'⟩ := h.restShare_iterate_mem maxRecalibrationPasses
  have hside : NoneBelow (adjusted^[k] aims) ∨ NoneAbove (adjusted^[k] aims) := by
    obtain ⟨k, rfl⟩ := Nat.exists_eq_add_of_le' hfirst
    rw [Function.iterate_succ_apply']
    exact (h.iterate k).noneBelow_or_noneAbove
  have hall : adjusted^[maxRecalibrationPasses - k] (adjusted^[k] aims)
      = adjusted^[maxRecalibrationPasses] aims := by
    rw [← Function.iterate_add_apply, Nat.sub_add_cancel hlast]
  rcases hside with hbelow | habove
  · have hgrown := ((h.iterate k).drifts rises hbelow _ hmissed).2
    rw [hall] at hgrown
    have hroom := mul_le_mul hcompound hleast (h.leastRest_pos k).le
      (pow_pos (add_pos zero_lt_one htol) _).le
    linarith
  · have hfallen := ((h.iterate k).drifts falls habove _ hmissed).2
    rw [hall, ← div_eq_mul_inv, div_le_iff₀ (h.iterate k).restShare_pos, inv_mul_eq_div,
      le_div_iff₀ (h.iterate _).restShare_pos] at hfallen
    have hroom := mul_le_mul hcompound hleast' (h.leastRest_pos _).le
      (pow_pos (add_pos zero_lt_one htol) _).le
    linarith

end Partial

end NestedLogit
