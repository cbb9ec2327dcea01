import Mathlib.Tactic.FieldSimp
import NestedLogit.Proofs.Choice.Proportional

/-!
# Targets for everybody

When every contender has a target and the targets make up the market, a recalibration reaches them
as soon as somebody has a weight to start from. The first pass brings back whom the targets need,
the second one puts every logit weight in proportion to its target, and no later pass loses that. If
nobody has a weight, the market is split equally, no pass gives anybody a weight, and the targets
are missed unless they are an equal split themselves.

## Main definitions

- `Aim.Aimed` — ordinary contenders with targets
- `Aim.Live` — contenders who are in the choice if their targets need it
- `Aim.Tuned` — contenders whose logit weights are in proportion to their targets

## Main statements

- `Aim.adjust_cases` — what an adjustment does to a logit weight
- `Aim.live_adjust`, `Aim.tuned_adjust` — the first pass and all others
- `near_of_tuned` — how near the shares come to the targets
- `recalibrate_reaches_iff` — when a recalibration reaches targets for everybody
- `idleAims_missed` — targets that are missed because nobody has a weight

## Design notes

Shares within the tolerance of their targets are left alone, so that the logit weights after a pass
are in proportion to shares that are each off by the tolerance at most. Their total is then off by
the tolerance times the number of contenders, and so is every share once more.
-/

namespace NestedLogit

variable {α : Type} [ExactQuantity α]

theorem recalibrationTolerance_pos : (0 : α) < recalibrationTolerance := by
  simp only [recalibrationTolerance, Quantity.whole_eq_cast]
  positivity

/-- The tolerances of a million contenders together are less than the market. -/
theorem length_mul_tolerance_lt_one {n : ℕ} (hn : n ≤ 1000000) :
    (n : α) * recalibrationTolerance < 1 := by
  have hle : (n : α) ≤ 1000000 := by exact_mod_cast hn
  simp only [recalibrationTolerance, Quantity.whole_eq_cast]
  rw [mul_one_div, div_lt_one (by positivity)]
  push_cast
  linarith

/-- Sums of members that each differ by at most a bound of their own. -/
theorem abs_sum_sub_sum_le_sum {β : Type} {f g bound : β → α} {xs : List β}
    (h : ∀ x ∈ xs, |f x - g x| ≤ bound x) :
    |(xs.map f).sum - (xs.map g).sum| ≤ (xs.map bound).sum := by
  induction xs with
  | nil => simp
  | cons x xs ih =>
    rw [List.forall_mem_cons] at h
    have hsplit : ((x :: xs).map f).sum - ((x :: xs).map g).sum
        = (f x - g x) + ((xs.map f).sum - (xs.map g).sum) := by
      simp only [List.map_cons, List.sum_cons]
      ring
    rw [hsplit, List.map_cons, List.sum_cons]
    have htriangle := abs_add_le (f x - g x) ((xs.map f).sum - (xs.map g).sum)
    have hrest := ih h.2
    linarith [h.1]

/-- Sums of members that differ by at most a bound. -/
theorem abs_sum_sub_sum_le {β : Type} {f g : β → α} {bound : α} {xs : List β}
    (h : ∀ x ∈ xs, |f x - g x| ≤ bound) :
    |(xs.map f).sum - (xs.map g).sum| ≤ xs.length * bound := by
  have hsum : |(xs.map f).sum - (xs.map g).sum| ≤ (xs.map fun _ => bound).sum :=
    abs_sum_sub_sum_le_sum h
  rwa [List.map_const', List.sum_replicate, nsmul_eq_mul] at hsum

namespace Aim

/-- The target share, or nothing without a target. -/
def goal (x : Aim α) : α :=
  x.target.getD 0

/-- The logit weight of the contender. -/
def pull (x : Aim α) : α :=
  x.contender.pull

/-- An ordinary contender with a target. -/
structure Aimed (x : Aim α) : Prop where
  ordinary : x.contender.Ordinary
  target_eq : x.target = some x.goal
  goal_nonneg : 0 ≤ x.goal

/-- A contender who is in the choice, or whose target is as good as nothing. -/
def Live (x : Aim α) : Prop :=
  0 < x.pull ∨ x.goal ≤ recalibrationTolerance

/-- A contender whose logit weight is its target share of a total, up to the tolerance. -/
def Tuned (total : α) (x : Aim α) : Prop :=
  |x.pull - x.goal * total| ≤ recalibrationTolerance * total

variable {x : Aim α} {share total : α}

@[simp] theorem goal_adjust : (x.adjust share).goal = x.goal := by
  unfold adjust
  split <;> rfl

theorem Aimed.adjust (h : x.Aimed) (share : α) : (x.adjust share).Aimed := by
  have hkept := x.recalibrated_adjust share
  obtain ⟨hordinary, htarget, hgoal⟩ := h
  refine ⟨⟨x.unlimited_adjust share hordinary.toUnlimited, ?_, ?_, ?_⟩, ?_, ?_⟩
  · exact hkept.price ▸ hordinary.price_pos
  · exact hkept.price ▸ hordinary.price_finite
  · exact hkept.nonneg hordinary.weight_nonneg
  · rw [hkept.target, goal_adjust, htarget]
  · rwa [goal_adjust]

theorem pull_nonneg (h : x.Aimed) : 0 ≤ x.pull :=
  h.ordinary.pull_nonneg

theorem pull_adjust_of_some {weight : α} (h : x.adjustment share = some weight) :
    (x.adjust share).pull
      = weight * Quantity.pow x.contender.price x.contender.logitExponent := by
  rw [adjust, h]
  rfl

/-- An ordinary contender is left alone at its target only, as it has a share if it has a weight. -/
theorem near_of_no_adjustment (h : x.Aimed) (htotal : 0 < total)
    (hnone : x.adjustment (x.pull / total) = none) :
    |x.pull / total - x.goal| ≤ recalibrationTolerance := by
  by_contra hmissed
  unfold adjustment at hnone
  rw [h.target_eq] at hnone
  dsimp only at hnone
  rw [h.ordinary.no_fixed, Quantity.magnitude_eq_abs, if_neg (by simpa using hmissed)] at hnone
  by_cases hgoal : x.goal ≤ 0
  · rw [if_pos hgoal] at hnone
    cases hnone
  · rw [if_neg hgoal] at hnone
    by_cases hweight : 0 < x.contender.shareWeight
    · have hshare := div_pos (h.ordinary.pull_pos_iff.2 hweight) htotal
      rw [if_pos (show 0 < x.pull / total from hshare)] at hnone
      cases hnone
    · rw [if_pos (not_lt.1 hweight)] at hnone
      split at hnone <;> cases hnone

/-- What an adjustment does to a contender whose share is the part of its logit weight in a total:
nothing at the target, a logit weight in proportion to the target otherwise, or some logit weight
where there was none. -/
theorem adjust_cases (h : x.Aimed) (htotal : 0 < total) :
    |x.pull / total - x.goal| ≤ recalibrationTolerance ∧ x.adjust (x.pull / total) = x ∨
      (x.adjust (x.pull / total)).pull = x.goal * total ∨
      x.pull = 0 ∧ recalibrationTolerance < x.goal ∧ 0 < (x.adjust (x.pull / total)).pull := by
  have hpow := h.ordinary.pow_pos
  cases hadjustment : x.adjustment (x.pull / total) with
  | none =>
    exact .inl ⟨near_of_no_adjustment h htotal hadjustment, adjust_of_none hadjustment⟩
  | some weight =>
    right
    rw [pull_adjust_of_some hadjustment]
    obtain ⟨t, ht, -, hmissed, hweight⟩ := adjustment_eq_some hadjustment
    obtain rfl : x.goal = t := Option.some.inj (h.target_eq.symm.trans ht)
    rcases hweight with ⟨hzero, rfl⟩ | ⟨-, hshare, rfl⟩ | ⟨hgoal, hshare, -, rfl⟩
    · left
      rw [le_antisymm hzero h.goal_nonneg, zero_mul, zero_mul]
    · left
      have hpull : x.pull ≠ 0 := by
        intro hzero
        rw [hzero, zero_div] at hshare
        exact lt_irrefl _ hshare
      calc x.contender.shareWeight * (x.goal / (x.pull / total))
            * Quantity.pow x.contender.price x.contender.logitExponent
          = x.pull * (x.goal / (x.pull / total)) := by
            rw [pull, Contender.pull]
            ring
        _ = x.goal * total := by
            field_simp
    · right
      have hzero : x.pull = 0 := by
        refine le_antisymm (not_lt.1 fun hpos => ?_) (pull_nonneg h)
        exact absurd hshare (not_le.2 (div_pos hpos htotal))
      rw [hzero, zero_div, Quantity.magnitude_eq_abs, zero_sub, abs_neg,
        abs_of_pos hgoal] at hmissed
      refine ⟨hzero, hmissed, ?_⟩
      rwa [one_mul]

/-- A pass leaves everybody in the choice whose target needs it. -/
theorem live_adjust (h : x.Aimed) (htotal : 0 < total) : (x.adjust (x.pull / total)).Live := by
  unfold Live
  rw [goal_adjust]
  by_cases hsmall : x.goal ≤ recalibrationTolerance
  · exact .inr hsmall
  · left
    have hgoal := recalibrationTolerance_pos.trans (not_le.1 hsmall)
    rcases adjust_cases h htotal with ⟨hnear, heq⟩ | heq | ⟨-, -, hpos⟩
    · rw [heq]
      refine (pull_nonneg h).lt_of_ne fun hzero => hsmall ?_
      rwa [← hzero, zero_div, zero_sub, abs_neg, abs_of_pos hgoal] at hnear
    · rw [heq]
      exact mul_pos hgoal htotal
    · exact hpos

/-- A pass over those who are in the choice puts their logit weights in proportion. -/
theorem tuned_adjust (h : x.Aimed) (hlive : x.Live) (htotal : 0 < total) :
    (x.adjust (x.pull / total)).Tuned total := by
  have htol : (0 : α) < recalibrationTolerance := recalibrationTolerance_pos
  unfold Tuned
  rw [goal_adjust]
  rcases adjust_cases h htotal with ⟨hnear, heq⟩ | heq | ⟨hzero, hlarge, -⟩
  · rw [heq]
    calc |x.pull - x.goal * total| = |x.pull / total - x.goal| * total := by
          rw [← abs_of_pos htotal, ← abs_mul, abs_of_pos htotal, sub_mul,
            div_mul_cancel₀ _ htotal.ne']
      _ ≤ recalibrationTolerance * total := mul_le_mul_of_nonneg_right hnear htotal.le
  · rw [heq, sub_self, abs_zero]
    positivity
  · rcases hlive with hpos | hsmall
    · exact absurd hzero hpos.ne'
    · exact absurd hsmall (not_le.2 hlarge)

theorem Tuned.live (h : x.Tuned total) (htotal : 0 < total) : x.Live := by
  unfold Live
  by_cases hsmall : x.goal ≤ recalibrationTolerance
  · exact .inr hsmall
  · left
    have hleast : x.goal * total - recalibrationTolerance * total ≤ x.pull := by
      linarith [(abs_le.1 h).1]
    have hpos : 0 < (x.goal - recalibrationTolerance) * total :=
      mul_pos (sub_pos.2 (not_le.1 hsmall)) htotal
    linarith

end Aim

/-- The sum of the logit weights of all contenders. -/
def aimedPull (aims : List (Aim α)) : α :=
  (aims.map Aim.pull).sum

theorem totalPull_map_contender (aims : List (Aim α)) :
    totalPull (aims.map Aim.contender) = aimedPull aims := by
  rw [totalPull, List.map_map]
  rfl

/-- The aims after a pass over shares in proportion to the logit weights. -/
def adjusted (aims : List (Aim α)) : List (Aim α) :=
  aims.map fun x => x.adjust (x.pull / aimedPull aims)

/-- Ordinary contenders of whom somebody has a weight get their parts of the total logit weight. -/
theorem allocate_aims (hfinite : ∀ a : α, Quantity.isFinite a = true) {aims : List (Aim α)}
    (hc : ∀ x ∈ aims, x.contender.Ordinary) (hpos : 0 < aimedPull aims) :
    ∃ a, allocate (aims.map Aim.contender) = .ok a ∧
      a.shares = aims.map fun x => x.pull / aimedPull aims := by
  have htotal := totalPull_map_contender aims
  obtain ⟨a, ha, hshares⟩ :=
    allocate_proportional hfinite (List.forall_mem_map.2 hc) (htotal ▸ hpos)
  refine ⟨a, ha, ?_⟩
  rw [hshares, htotal, List.map_map]
  rfl

/-- Targets for everybody that make up the market, with so few contenders that the tolerances do
not. -/
structure Complete (aims : List (Aim α)) : Prop where
  aimed : ∀ x ∈ aims, x.Aimed
  sum_goal : (aims.map Aim.goal).sum = 1
  few : (aims.length : α) * recalibrationTolerance < 1

/-- Shares that are no further from the targets than a bound. -/
def Near (bound : α) (aims : List (Aim α)) (shares : List α) : Prop :=
  List.Forall₂ (fun x share => |share - x.goal| ≤ bound) aims shares

/-- The distance that shares may have from targets of as many contenders. -/
def reach (aims : List (Aim α)) : α :=
  (aims.length + 1) * recalibrationTolerance

theorem tolerance_le_reach (aims : List (Aim α)) : recalibrationTolerance ≤ reach aims := by
  have htol : (0 : α) < recalibrationTolerance := recalibrationTolerance_pos
  have hlength : (0 : α) ≤ aims.length := Nat.cast_nonneg _
  unfold reach
  nlinarith

theorem reach_adjusted (aims : List (Aim α)) : reach (adjusted aims) = reach aims := by
  rw [reach, reach, adjusted, List.length_map]

namespace Complete

variable {aims : List (Aim α)}

theorem ordinary (h : Complete aims) : ∀ x ∈ aims, x.contender.Ordinary :=
  fun x hx => (h.aimed x hx).ordinary

/-- A pass keeps the targets. -/
theorem adjusted (h : Complete aims) : Complete (adjusted aims) where
  aimed := List.forall_mem_map.2 fun x hx => (h.aimed x hx).adjust _
  sum_goal := by
    rw [NestedLogit.adjusted, List.map_map]
    exact (congrArg List.sum (List.map_congr_left fun x _ => Aim.goal_adjust)).trans h.sum_goal
  few := by
    rw [NestedLogit.adjusted, List.length_map]
    exact h.few

theorem pull_nonneg (h : Complete aims) : ∀ y ∈ aims.map Aim.pull, 0 ≤ y :=
  List.forall_mem_map.2 fun x hx => Aim.pull_nonneg (h.aimed x hx)

theorem pull_le (h : Complete aims) {x : Aim α} (hx : x ∈ aims) : x.pull ≤ aimedPull aims :=
  List.single_le_sum h.pull_nonneg _ (List.mem_map_of_mem hx)

/-- Not all targets are as good as nothing, so that somebody is in the choice. -/
theorem aimedPull_pos_of_live (h : Complete aims) (hlive : ∀ x ∈ aims, x.Live) :
    0 < aimedPull aims := by
  by_contra hnone
  have hsmall : ∀ x ∈ aims, |x.goal - 0| ≤ recalibrationTolerance := by
    intro x hx
    rw [sub_zero, abs_of_nonneg (h.aimed x hx).goal_nonneg]
    exact (hlive x hx).resolve_left fun hpos => hnone (hpos.trans_le (h.pull_le hx))
  have hsum := abs_sum_sub_sum_le hsmall
  rw [h.sum_goal] at hsum
  have hfew := h.few
  norm_num at hsum
  linarith

/-- A pass over those who are in the choice puts everybody's logit weight in proportion. -/
theorem tuned_adjusted (h : Complete aims) (hlive : ∀ x ∈ aims, x.Live) :
    ∀ y ∈ NestedLogit.adjusted aims, y.Tuned (aimedPull aims) :=
  List.forall_mem_map.2 fun x hx =>
    Aim.tuned_adjust (h.aimed x hx) (hlive x hx) (h.aimedPull_pos_of_live hlive)

/-- The shares of contenders whose logit weights are in proportion to their targets are within the
tolerance of these, once for each contender and once more. -/
theorem near_of_tuned (h : Complete aims) {total : α} (htotal : 0 < total)
    (htuned : ∀ x ∈ aims, x.Tuned total) :
    ∀ x ∈ aims, |x.pull / aimedPull aims - x.goal| ≤ reach aims := by
  have hpos := h.aimedPull_pos_of_live fun x hx => (htuned x hx).live htotal
  have hsum : |aimedPull aims - total| ≤ aims.length * (recalibrationTolerance * total) := by
    have hgoals : (aims.map fun x => x.goal * total).sum = total := by
      rw [List.sum_map_mul_right, h.sum_goal, one_mul]
    have hdiff := abs_sum_sub_sum_le (f := Aim.pull) (g := fun x => x.goal * total) htuned
    rwa [hgoals] at hdiff
  intro x hx
  have hshare : x.pull / aimedPull aims ≤ 1 := (div_le_one hpos).2 (h.pull_le hx)
  have hshare0 : 0 ≤ x.pull / aimedPull aims :=
    div_nonneg (Aim.pull_nonneg (h.aimed x hx)) hpos.le
  have hown : |x.pull / total - x.goal| ≤ recalibrationTolerance := by
    have hscaled : |x.pull / total - x.goal| = |x.pull - x.goal * total| / total := by
      rw [← abs_of_pos htotal, ← abs_div, abs_of_pos htotal, sub_div,
        mul_div_cancel_right₀ _ htotal.ne']
    rw [hscaled, div_le_iff₀ htotal]
    exact htuned x hx
  have hother : |x.pull / aimedPull aims - x.pull / total|
      ≤ aims.length * recalibrationTolerance := by
    have hscaled : x.pull / aimedPull aims - x.pull / total
        = x.pull / aimedPull aims * ((total - aimedPull aims) / total) := by
      field_simp
    have hrelative : |(total - aimedPull aims) / total| ≤ aims.length * recalibrationTolerance := by
      rw [abs_div, abs_of_pos htotal, div_le_iff₀ htotal, abs_sub_comm, mul_assoc]
      exact hsum
    rw [hscaled, abs_mul, abs_of_nonneg hshare0]
    -- The share is at most one, so that the relative error of the total bounds this difference.
    exact (mul_le_of_le_one_left (abs_nonneg _) hshare).trans hrelative
  have htriangle := abs_add_le (x.pull / aimedPull aims - x.pull / total) (x.pull / total - x.goal)
  rw [sub_add_sub_cancel] at htriangle
  unfold reach
  linarith

end Complete

/-- A number of passes from shares in proportion to the logit weights come near the targets. -/
def Reaches (fuel : ℕ) (aims : List (Aim α)) : Prop :=
  ∀ a : Allocation α, a.shares = (aims.map fun x => x.pull / aimedPull aims) →
    ∃ b, (recalibrationPasses fuel aims a).outcome = .ok b ∧ Near (reach aims) aims b.shares

section Passes

variable {aims : List (Aim α)} {bound : α} {fuel : ℕ}
  (hfinite : ∀ a : α, Quantity.isFinite a = true)

theorem near_map_iff {share : Aim α → α} :
    Near bound aims (aims.map share) ↔ ∀ x ∈ aims, |share x - x.goal| ≤ bound := by
  rw [Near, List.forall₂_map_right_iff, List.forall₂_same]

theorem Near.mono {shares : List α} (h : Near bound aims shares) {bound' : α}
    (hle : bound ≤ bound') : Near bound' aims shares :=
  h.imp fun _ _ hnear => hnear.trans hle

theorem near_adjusted_iff {shares : List α} :
    Near bound (adjusted aims) shares ↔ Near bound aims shares := by
  simp only [Near, adjusted, List.forall₂_map_left_iff, Aim.goal_adjust]

include hfinite

/-- If the passes after a pass come near the targets, so do they together with it: either it changes
something, or the targets are met already. -/
theorem Reaches.succ (h : Complete aims) (hpos : 0 < aimedPull aims)
    (hlive : ∀ y ∈ adjusted aims, y.Live) (hnext : Reaches fuel (adjusted aims)) :
    Reaches (fuel + 1) aims := by
  intro a ha
  rcases recalibrationPasses_succ ha fuel with ⟨hnone, hstill⟩ | hstep
  · -- Nobody is adjusted only if every share is at its target, since nobody's target is ignored.
    refine ⟨a, hstill ▸ rfl, ?_⟩
    rw [ha, near_map_iff]
    exact fun x hx => (Aim.near_of_no_adjustment (h.aimed x hx) hpos (hnone x hx)).trans
      (tolerance_le_reach aims)
  · have hpos' := h.adjusted.aimedPull_pos_of_live hlive
    obtain ⟨next, hallocated, hshares⟩ := allocate_aims hfinite h.adjusted.ordinary hpos'
    obtain ⟨b, hb, hnear⟩ := hnext next hshares
    rw [reach_adjusted, near_adjusted_iff] at hnear
    rw [hstep next hallocated]
    exact ⟨b, hb, hnear⟩

/-- Logit weights that are in proportion to the targets stay so in every pass. -/
theorem reaches_of_tuned (fuel : ℕ) (h : Complete aims) {total : α} (htotal : 0 < total)
    (htuned : ∀ x ∈ aims, x.Tuned total) : Reaches fuel aims := by
  -- A pass tunes the weights to the total it starts from, which is another one in each pass.
  induction fuel generalizing aims total with
  | zero =>
    intro a ha
    refine ⟨a, rfl, ?_⟩
    rw [ha, near_map_iff]
    exact h.near_of_tuned htotal htuned
  | succ fuel ih =>
    have hlive : ∀ x ∈ aims, x.Live := fun x hx => (htuned x hx).live htotal
    have hpos := h.aimedPull_pos_of_live hlive
    have hnext := h.tuned_adjusted hlive
    exact Reaches.succ hfinite h hpos (fun y hy => (hnext y hy).live hpos)
      (ih h.adjusted hpos hnext)

/-- One pass puts the logit weights of those in proportion who are in the choice. -/
theorem reaches_of_live (fuel : ℕ) (h : Complete aims) (hlive : ∀ x ∈ aims, x.Live) :
    Reaches (fuel + 1) aims := by
  have hpos := h.aimedPull_pos_of_live hlive
  have hnext := h.tuned_adjusted hlive
  exact Reaches.succ hfinite h hpos (fun y hy => (hnext y hy).live hpos)
    (reaches_of_tuned hfinite fuel h.adjusted hpos hnext)

/-- One more pass brings those back into the choice whom the targets need. -/
theorem reaches_of_pos (fuel : ℕ) (h : Complete aims) (hpos : 0 < aimedPull aims) :
    Reaches (fuel + 2) aims := by
  have hnext : ∀ y ∈ adjusted aims, y.Live :=
    List.forall_mem_map.2 fun x hx => Aim.live_adjust (h.aimed x hx) hpos
  exact Reaches.succ hfinite h hpos hnext (reaches_of_live hfinite fuel h.adjusted hnext)

/-- A recalibration comes near the targets if somebody has a weight. -/
theorem recalibrate_near (h : Complete aims) (hpos : 0 < aimedPull aims) :
    ∃ b, (recalibrate aims).outcome = .ok b ∧ Near (reach aims) aims b.shares := by
  obtain ⟨a, hallocated, hshares⟩ := allocate_aims hfinite h.ordinary hpos
  rw [recalibrate, hallocated]
  exact reaches_of_pos hfinite (maxRecalibrationPasses - 2) h hpos a hshares

end Passes

section Idle

variable {aims : List (Aim α)}

/-- A share in an equal split gives nobody a weight who has none. -/
theorem Aim.shareWeight_adjust_eq_zero {x : Aim α} {share : α} (hshare : 0 < share)
    (hzero : x.contender.shareWeight = 0) : (x.adjust share).contender.shareWeight = 0 := by
  unfold Aim.adjust
  cases hadjustment : x.adjustment share with
  | none => exact hzero
  | some weight =>
    obtain ⟨t, -, -, -, hweight⟩ := adjustment_eq_some hadjustment
    rcases hweight with ⟨-, rfl⟩ | ⟨-, -, rfl⟩ | ⟨-, hnone, -, -⟩
    · rfl
    · rw [hzero, zero_mul]
    · exact absurd hshare (not_lt.2 hnone)

/-- Passes over contenders of whom nobody has a weight leave the market split equally. -/
theorem recalibrationPasses_idle (fuel : ℕ) (hne : aims ≠ [])
    (hc : ∀ x ∈ aims, x.contender.Unlimited) (hzero : ∀ x ∈ aims, x.contender.shareWeight = 0)
    {a : Allocation α} (ha : a.shares = aims.map fun _ => 1 / (aims.length : α)) :
    ∃ b, (recalibrationPasses fuel aims a).outcome = .ok b ∧
      b.shares = aims.map fun _ => 1 / (aims.length : α) := by
  induction fuel generalizing aims a with
  | zero => exact ⟨a, rfl, ha⟩
  | succ fuel ih =>
    rw [recalibrationPasses]
    split
    · rw [ha, List.zipWith_map_right, List.zipWith_self]
      dsimp only
      -- A share of zero would give a weight back, but an equal split has none.
      have hshare : (0 : α) < 1 / aims.length :=
        one_div_pos.2 (Nat.cast_pos.2 (List.length_pos_iff.2 hne))
      have hne' : (aims.map fun x => x.adjust (1 / (aims.length : α))) ≠ [] := by simpa using hne
      have hc' : ∀ y ∈ aims.map fun x => x.adjust (1 / (aims.length : α)),
          y.contender.Unlimited :=
        List.forall_mem_map.2 fun x hx => x.unlimited_adjust _ (hc x hx)
      have hzero' : ∀ y ∈ aims.map fun x => x.adjust (1 / (aims.length : α)),
          y.contender.shareWeight = 0 :=
        List.forall_mem_map.2 fun x hx => Aim.shareWeight_adjust_eq_zero hshare (hzero x hx)
      obtain ⟨next, hallocated, hnext⟩ := allocate_equal (by simpa using hne')
        (List.forall_mem_map.2 hc') (List.forall_mem_map.2 hzero')
      rw [List.map_map, List.length_map] at hnext
      obtain ⟨b, hb, hshares⟩ := ih hne' hc' hzero' hnext
      rw [hallocated]
      refine ⟨b, hb, ?_⟩
      rw [hshares, List.map_map, List.length_map]
      rfl
    · exact ⟨a, rfl, ha⟩

theorem recalibrate_idle (hne : aims ≠ []) (hc : ∀ x ∈ aims, x.contender.Unlimited)
    (hzero : ∀ x ∈ aims, x.contender.shareWeight = 0) :
    ∃ b, (recalibrate aims).outcome = .ok b ∧
      b.shares = aims.map fun _ => 1 / (aims.length : α) := by
  obtain ⟨a, hallocated, hshares⟩ := allocate_equal
    (by simpa using hne : aims.map Aim.contender ≠ []) (List.forall_mem_map.2 hc)
    (List.forall_mem_map.2 hzero)
  rw [List.map_map, List.length_map] at hshares
  rw [recalibrate, hallocated]
  exact recalibrationPasses_idle maxRecalibrationPasses hne hc hzero hshares

end Idle

/-- If up to a million contenders at positive finite prices, without limits and fixed shares, have
targets that are not negative and make up the market, a recalibration succeeds. If somebody has a
weight, every share is within the tolerance of its target, once for each contender and once more; if
nobody has, all shares are equal. Within twice that distance the targets are reached exactly if
somebody has a weight or the targets are that near to an equal split. -/
theorem recalibrate_reaches_iff (hfinite : ∀ a : α, Quantity.isFinite a = true)
    {aims : List (Aim α)} (hc : ∀ x ∈ aims, x.contender.Ordinary)
    (htarget : ∀ x ∈ aims, x.target = some x.goal ∧ 0 ≤ x.goal)
    (hsum : (aims.map Aim.goal).sum = 1) (hlength : aims.length ≤ 1000000) :
    ∃ b, (recalibrate aims).outcome = .ok b ∧
      ((∃ x ∈ aims, 0 < x.contender.shareWeight) →
        Near (((aims.length : α) + 1) * recalibrationTolerance) aims b.shares) ∧
      ((∀ x ∈ aims, x.contender.shareWeight = 0) →
        b.shares = aims.map fun _ => 1 / (aims.length : α)) ∧
      (Near (2 * ((aims.length : α) + 1) * recalibrationTolerance) aims b.shares ↔
        (∃ x ∈ aims, 0 < x.contender.shareWeight) ∨
          ∀ x ∈ aims, |1 / (aims.length : α) - x.goal|
            ≤ 2 * ((aims.length : α) + 1) * recalibrationTolerance) := by
  have hcomplete : Complete aims :=
    ⟨fun x hx => ⟨hc x hx, (htarget x hx).1, (htarget x hx).2⟩, hsum,
      length_mul_tolerance_lt_one hlength⟩
  have hne : aims ≠ [] := by
    rintro rfl
    exact zero_ne_one hsum
  have hpos_iff : 0 < aimedPull aims ↔ ∃ x ∈ aims, 0 < x.contender.shareWeight := by
    rw [← totalPull_map_contender, totalPull_pos_iff (List.forall_mem_map.2 hc)]
    simp
  by_cases hsome : ∃ x ∈ aims, 0 < x.contender.shareWeight
  · obtain ⟨b, hb, hnear⟩ := recalibrate_near hfinite hcomplete (hpos_iff.2 hsome)
    refine ⟨b, hb, fun _ => hnear, ?_, ?_⟩
    · intro hzero
      obtain ⟨x, hx, hweight⟩ := hsome
      exact absurd (hzero x hx) hweight.ne'
    · refine iff_of_true (hnear.mono ?_) (.inl hsome)
      have htol : (0 : α) < recalibrationTolerance := recalibrationTolerance_pos
      have hcount : (0 : α) ≤ aims.length := Nat.cast_nonneg _
      unfold reach
      nlinarith
  · have hzero : ∀ x ∈ aims, x.contender.shareWeight = 0 := by
      push Not at hsome
      exact fun x hx => le_antisymm (hsome x hx) (hc x hx).weight_nonneg
    obtain ⟨b, hb, hshares⟩ := recalibrate_idle hne (fun x hx => (hc x hx).toUnlimited) hzero
    refine ⟨b, hb, fun h => absurd h hsome, fun _ => hshares, ?_⟩
    rw [hshares, near_map_iff, or_iff_right hsome]

/-- Two plants with targets of three quarters and a quarter. One has no weight at first. -/
def revivedAims : List (Aim ℚ) :=
  [⟨⟨0, 2, -1, 1, none⟩, some (3 / 4)⟩, ⟨⟨1, 1, -1, 1, none⟩, some (1 / 4)⟩]

/-- The same plants, neither of which has a weight. -/
def idleAims : List (Aim ℚ) :=
  [⟨⟨0, 2, -1, 1, none⟩, some (3 / 4)⟩, ⟨⟨0, 1, -1, 1, none⟩, some (1 / 4)⟩]

theorem ordinary_revivedAims : ∀ x ∈ revivedAims, x.contender.Ordinary := by
  simp only [revivedAims, List.forall_mem_cons]
  refine ⟨⟨⟨rfl, rfl⟩, by norm_num, rfl, by norm_num⟩,
    ⟨⟨rfl, rfl⟩, by norm_num, rfl, by norm_num⟩, by simp⟩

theorem target_revivedAims : ∀ x ∈ revivedAims, x.target = some x.goal ∧ 0 ≤ x.goal := by
  simp only [revivedAims, List.forall_mem_cons]
  exact ⟨⟨rfl, by norm_num [Aim.goal]⟩, ⟨rfl, by norm_num [Aim.goal]⟩, by simp⟩

/-- A plant without a weight is brought back, so that both targets are reached. -/
theorem revivedAims_reached :
    (∀ a : ℚ, Quantity.isFinite a = true) ∧ (revivedAims.map Aim.goal).sum = 1 ∧
      revivedAims.length ≤ 1000000 ∧
      ∃ b, (recalibrate revivedAims).outcome = .ok b ∧
        Near (2 * ((revivedAims.length : ℚ) + 1) * recalibrationTolerance) revivedAims
          b.shares := by
  have hfinite : ∀ a : ℚ, Quantity.isFinite a = true := fun _ => rfl
  have hsum : (revivedAims.map Aim.goal).sum = 1 := by
    norm_num [revivedAims, Aim.goal]
  have hlength : revivedAims.length ≤ 1000000 := by decide
  refine ⟨hfinite, hsum, hlength, ?_⟩
  obtain ⟨b, hb, -, -, hreached⟩ :=
    recalibrate_reaches_iff hfinite ordinary_revivedAims target_revivedAims hsum hlength
  exact ⟨b, hb, hreached.2 (.inl ⟨_, List.mem_cons_of_mem _ (List.mem_singleton_self _), one_pos⟩)⟩

/-- Targets that are missed by a quarter of the market, because nobody has a weight and the equal
split gives nobody one. -/
theorem idleAims_missed :
    (∀ x ∈ idleAims, x.contender.Ordinary ∧ x.target = some x.goal ∧ 0 ≤ x.goal) ∧
      (idleAims.map Aim.goal).sum = 1 ∧ idleAims.map Aim.goal = [3 / 4, 1 / 4] ∧
      ∃ b, (recalibrate idleAims).outcome = .ok b ∧ b.shares = [1 / 2, 1 / 2] := by
  have hall : ∀ x ∈ idleAims, x.contender.Ordinary ∧ x.target = some x.goal ∧ 0 ≤ x.goal := by
    simp only [idleAims, List.forall_mem_cons]
    refine ⟨⟨⟨⟨rfl, rfl⟩, by norm_num, rfl, by norm_num⟩, rfl, by norm_num [Aim.goal]⟩,
      ⟨⟨⟨rfl, rfl⟩, by norm_num, rfl, by norm_num⟩, rfl, by norm_num [Aim.goal]⟩, by simp⟩
  have hzero : ∀ x ∈ idleAims, x.contender.shareWeight = 0 := by simp [idleAims]
  obtain ⟨b, hb, hshares⟩ := recalibrate_idle (List.cons_ne_nil _ _)
    (fun x hx => (hall x hx).1.toUnlimited) hzero
  refine ⟨hall, by norm_num [idleAims, Aim.goal], by norm_num [idleAims, Aim.goal], b, hb, ?_⟩
  rw [hshares]
  norm_num [idleAims]

end NestedLogit
