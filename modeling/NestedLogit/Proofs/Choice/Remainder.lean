import NestedLogit.Proofs.Choice.CompleteTargets

/-!
# What targets leave of a market

When some contenders have no target, these take up what the targets leave of the market, and no
single pass can know what that will be: a pass brings every logit weight with a target to its target
part of the total before, and the total changes. The part of those without a target so follows a
sequence of its own, and what the targets sum to says how fast it comes to what the targets leave.

## Main definitions

- `restAfter` — the part of those without a target after a number of passes without a tolerance
- `restShare` — the part of those without a target in the total logit weight
- `Partial` — targets for some that are coarse enough for the tolerance

## Main statements

- `restAfter_gap` — how far the targets and the rest are from making up the market
- `Partial.restShare_adjusted_mem` — what one pass makes of the part of those without a target
- `Partial.restShare_iterate_mem` — what a number of passes make of it
- `Partial.share_adjusted_mem` — the shares after a pass

## Design notes

A contender whose share is within the tolerance of its target is left alone, so that a pass may bring
the logit weights with targets to a bit more or less than the targets. The tolerances of all of them
together bound how much that is, whatever they sum to, and passes without a tolerance for so much
more and for so much less keep the part of the others between them. The error does not add up over
the passes: it falls with the sum of the targets, as the distance from the targets does.
-/

namespace NestedLogit

variable {α : Type} [ExactQuantity α]

section Rest

variable {total first : α}

/-- The part of the market of those without a target after a number of passes: each pass leaves
their logit weight and brings those of the others to what their targets are of the total before. -/
def restAfter (total first : α) : ℕ → α
  | 0 => first
  | k + 1 => restAfter total first k / (total + restAfter total first k)

theorem restAfter_pos (htotal : 0 ≤ total) (hfirst : 0 < first) (k : ℕ) :
    0 < restAfter total first k := by
  induction k with
  | zero => exact hfirst
  | succ k ih => exact div_pos ih (add_pos_of_nonneg_of_pos htotal ih)

/-- How far the targets and the rest are from making up the market. The distance falls by the sum of
the targets in each pass. -/
theorem restAfter_gap (htotal : 0 ≤ total) (hfirst : 0 < first) (k : ℕ) :
    total + restAfter total first k - 1
      = restAfter total first k * (total ^ k * (1 - (1 - total) / first)) := by
  induction k with
  | zero =>
    rw [restAfter, pow_zero, one_mul]
    field_simp
    ring
  | succ k ih =>
    have hpos := restAfter_pos htotal hfirst k
    have hcover : total + restAfter total first k ≠ 0 := (add_pos_of_nonneg_of_pos htotal hpos).ne'
    have hstep : total + restAfter total first (k + 1) - 1
        = total * (total + restAfter total first k - 1) / (total + restAfter total first k) := by
      rw [restAfter]
      field_simp
      ring
    rw [hstep, ih, restAfter, pow_succ]
    ring

/-- What is left of the distance at first bounds how far the rest is from what the targets leave. -/
theorem restAfter_near (htotal : 0 ≤ total) (hfirst : 0 < first) {k : ℕ} {left : α}
    (hleft : total ^ k * |1 - (1 - total) / first| ≤ left) :
    restAfter total first k * (1 - left) ≤ 1 - total ∧
      1 - total ≤ restAfter total first k * (1 + left) := by
  have hpos := restAfter_pos htotal hfirst k
  have hgap := restAfter_gap htotal hfirst k
  rw [← abs_of_nonneg (pow_nonneg htotal k), ← abs_mul] at hleft
  obtain ⟨hleast, hmost⟩ := abs_le.1 hleft
  have hleast := mul_le_mul_of_nonneg_left hleast hpos.le
  have hmost := mul_le_mul_of_nonneg_left hmost hpos.le
  constructor <;> linarith

/-- A greater part stays the greater one in a pass. -/
theorem div_add_le_div_add {v w : α} (htotal : 0 ≤ total) (hv : 0 < v) (hvw : v ≤ w) :
    v / (total + v) ≤ w / (total + w) := by
  have hw := hv.trans_le hvw
  rw [div_le_div_iff₀ (add_pos_of_nonneg_of_pos htotal hv) (add_pos_of_nonneg_of_pos htotal hw)]
  have hproduct := mul_le_mul_of_nonneg_right hvw htotal
  linarith

/-- Passes for a greater sum of targets leave less to the others, and passes for a lesser one more. -/
theorem restAfter_mem {least most : α} (hleast : 0 ≤ least) (hmost : 0 ≤ most) {part : ℕ → α}
    (hpart : ∀ k, 0 < part k)
    (hpass : ∀ k, part k / (most + part k) ≤ part (k + 1) ∧
      part (k + 1) ≤ part k / (least + part k)) (k : ℕ) :
    restAfter most (part 0) k ≤ part k ∧ part k ≤ restAfter least (part 0) k := by
  induction k with
  | zero => exact ⟨le_rfl, le_rfl⟩
  | succ k ih =>
    have hrest := restAfter_pos hmost (hpart 0) k
    exact ⟨(div_add_le_div_add hmost hrest ih.1).trans (hpass k).1,
      (hpass k).2.trans (div_add_le_div_add hleast (hpart k) ih.2)⟩

end Rest

namespace Aim

variable {x : Aim α} {share total : α}

/-- The logit weight of a contender without a target. -/
def rest (x : Aim α) : α :=
  if x.target.isSome then 0 else x.pull

theorem goal_of_target {t : α} (h : x.target = some t) : x.goal = t := by
  rw [goal, h, Option.getD_some]

theorem adjust_of_no_target (h : x.target = none) : x.adjust share = x := by
  refine adjust_of_none ?_
  rw [adjustment, h]

theorem rest_adjust : (x.adjust share).rest = x.rest := by
  have hkept := x.recalibrated_adjust share
  cases htarget : x.target with
  | none => rw [adjust_of_no_target htarget]
  | some t => rw [rest, rest, hkept.target, htarget, Option.isSome_some, if_pos rfl, if_pos rfl]

end Aim

/-- The sum of the targets. -/
def goalTotal (aims : List (Aim α)) : α :=
  (aims.map Aim.goal).sum

/-- How many contenders have a target. -/
def goalCount (aims : List (Aim α)) : ℕ :=
  aims.countP fun x => x.target.isSome

/-- The tolerances of all contenders with a target together. -/
def goalTolerance (aims : List (Aim α)) : α :=
  goalCount aims * recalibrationTolerance

/-- The logit weights of those without a target. -/
def restPull (aims : List (Aim α)) : α :=
  (aims.map Aim.rest).sum

/-- The part of those without a target in the total logit weight. -/
def restShare (aims : List (Aim α)) : α :=
  restPull aims / aimedPull aims

/-- The least part of those without a target after a number of passes. -/
def leastRest (aims : List (Aim α)) (k : ℕ) : α :=
  restAfter (goalTotal aims + goalTolerance aims) (restShare aims) k

/-- The greatest part of those without a target after a number of passes. -/
def mostRest (aims : List (Aim α)) (k : ℕ) : α :=
  restAfter (goalTotal aims - goalTolerance aims) (restShare aims) k

/-- Targets for some of a number of contenders who all have a weight. Every target is worth a
thousand tolerances. -/
structure Partial (aims : List (Aim α)) : Prop where
  ordinary : ∀ x ∈ aims, x.contender.Ordinary
  weight_pos : ∀ x ∈ aims, 0 < x.contender.shareWeight
  some_open : ∃ x ∈ aims, x.target = none
  coarse : ∀ x ∈ aims, ∀ t, x.target = some t → 1000 * recalibrationTolerance ≤ t

section Sums

variable {aims : List (Aim α)}

theorem goalTotal_adjusted : goalTotal (adjusted aims) = goalTotal aims := by
  rw [goalTotal, adjusted, List.map_map]
  exact congrArg List.sum (List.map_congr_left fun x _ => Aim.goal_adjust)

theorem goalTolerance_adjusted : goalTolerance (adjusted aims) = goalTolerance aims := by
  rw [goalTolerance, goalCount, adjusted, List.countP_map]
  refine congrArg (fun n : ℕ => (n : α) * recalibrationTolerance) (List.countP_congr fun x _ => ?_)
  simp [(x.recalibrated_adjust _).target]

theorem restPull_adjusted : restPull (adjusted aims) = restPull aims := by
  rw [restPull, adjusted, List.map_map]
  exact congrArg List.sum (List.map_congr_left fun x _ => Aim.rest_adjust)

theorem aimedPull_adjusted : aimedPull (adjusted aims)
    = (aims.map fun x => (x.adjust (x.pull / aimedPull aims)).pull).sum := by
  simp only [aimedPull, adjusted, List.map_map]
  rfl

theorem goals_iterate (aims : List (Aim α)) (k : ℕ) :
    goalTotal (adjusted^[k] aims) = goalTotal aims ∧
      goalTolerance (adjusted^[k] aims) = goalTolerance aims := by
  induction k with
  | zero => exact ⟨rfl, rfl⟩
  | succ k ih =>
    rw [Function.iterate_succ_apply', goalTotal_adjusted, goalTolerance_adjusted]
    exact ih

/-- Passes change the contenders one by one and leave their targets. -/
theorem adjusted_iterate (aims : List (Aim α)) (k : ℕ) :
    ∃ f : Aim α → Aim α, adjusted^[k] aims = aims.map f ∧ ∀ x, (f x).target = x.target := by
  induction k with
  | zero => exact ⟨id, (List.map_id aims).symm, fun _ => rfl⟩
  | succ k ih =>
    obtain ⟨f, hf, htarget⟩ := ih
    rw [Function.iterate_succ_apply', adjusted, hf, List.map_map]
    exact ⟨_, rfl, fun x => ((f x).recalibrated_adjust _).target.trans (htarget x)⟩

theorem goalTolerance_nonneg (aims : List (Aim α)) : 0 ≤ goalTolerance aims :=
  mul_nonneg (Nat.cast_nonneg _) recalibrationTolerance_pos.le

theorem sum_map_ite_const {β : Type} (p : β → Bool) (c : α) (xs : List β) :
    (xs.map fun x => if p x then c else 0).sum = xs.countP p * c := by
  induction xs with
  | nil => simp
  | cons x xs ih =>
    rw [List.map_cons, List.sum_cons, ih, List.countP_cons]
    split <;> push_cast <;> ring

end Sums

namespace Partial

variable {aims : List (Aim α)}

theorem goal_pos (h : Partial aims) {x : Aim α} (hx : x ∈ aims) {t : α}
    (ht : x.target = some t) : 0 < t := by
  have htol : (0 : α) < recalibrationTolerance := recalibrationTolerance_pos
  linarith [h.coarse x hx t ht]

theorem aimed (h : Partial aims) {x : Aim α} (hx : x ∈ aims) {t : α}
    (ht : x.target = some t) : x.Aimed := by
  obtain rfl := Aim.goal_of_target ht
  exact ⟨h.ordinary x hx, ht, (h.goal_pos hx ht).le⟩

theorem pull_pos (h : Partial aims) {x : Aim α} (hx : x ∈ aims) : 0 < x.pull :=
  (h.ordinary x hx).pull_pos_iff.2 (h.weight_pos x hx)

/-- A pass keeps the targets and leaves everybody in the choice. -/
theorem pass (h : Partial aims) : Partial (adjusted aims) where
  ordinary := List.forall_mem_map.2 fun x hx => by
    have hkept := x.recalibrated_adjust (x.pull / aimedPull aims)
    have hx' := h.ordinary x hx
    exact ⟨x.unlimited_adjust _ hx'.toUnlimited, hkept.price ▸ hx'.price_pos,
      hkept.price ▸ hx'.price_finite, hkept.nonneg hx'.weight_nonneg⟩
  weight_pos := List.forall_mem_map.2 fun x hx =>
    (x.recalibrated_adjust _).pos (h.weight_pos x hx) fun t ht => h.goal_pos hx ht
  some_open := by
    obtain ⟨x, hx, hopen⟩ := h.some_open
    exact ⟨_, List.mem_map_of_mem hx, (x.recalibrated_adjust _).target.trans hopen⟩
  coarse := List.forall_mem_map.2 fun x hx => (x.recalibrated_adjust _).target ▸ h.coarse x hx

theorem iterate (h : Partial aims) (k : ℕ) : Partial (adjusted^[k] aims) := by
  induction k with
  | zero => exact h
  | succ k ih =>
    rw [Function.iterate_succ_apply']
    exact ih.pass

theorem restPull_pos (h : Partial aims) : 0 < restPull aims := by
  obtain ⟨x, hx, hopen⟩ := h.some_open
  have hnonneg : ∀ y ∈ aims.map Aim.rest, 0 ≤ y := List.forall_mem_map.2 fun y hy => by
    unfold Aim.rest
    split
    · exact le_rfl
    · exact (h.pull_pos hy).le
  have hrest : x.rest = x.pull := by rw [Aim.rest, hopen]; rfl
  calc 0 < x.rest := hrest ▸ h.pull_pos hx
    _ ≤ restPull aims := List.single_le_sum hnonneg _ (List.mem_map_of_mem hx)

theorem aimedPull_pos (h : Partial aims) : 0 < aimedPull aims := by
  obtain ⟨x, hx, -⟩ := h.some_open
  have hnonneg : ∀ y ∈ aims.map Aim.pull, 0 ≤ y :=
    List.forall_mem_map.2 fun y hy => (h.pull_pos hy).le
  exact (h.pull_pos hx).trans_le (List.single_le_sum hnonneg _ (List.mem_map_of_mem hx))

theorem restShare_pos (h : Partial aims) : 0 < restShare aims :=
  div_pos h.restPull_pos h.aimedPull_pos

/-- The tolerances together are a small part of the targets together. -/
theorem goalTolerance_le (h : Partial aims) : 1000 * goalTolerance aims ≤ goalTotal aims := by
  rw [goalTolerance, goalCount, goalTotal, ← sum_map_ite_const, ← List.sum_map_mul_left]
  refine List.sum_le_sum fun x hx => ?_
  cases ht : x.target with
  | none => simp [Aim.goal, ht]
  | some t => simpa [Aim.goal, ht] using h.coarse x hx t ht

theorem least_nonneg (h : Partial aims) : 0 ≤ goalTotal aims - goalTolerance aims := by
  linarith [h.goalTolerance_le, goalTolerance_nonneg aims]

theorem most_nonneg (h : Partial aims) : 0 ≤ goalTotal aims + goalTolerance aims := by
  linarith [h.goalTolerance_le, goalTolerance_nonneg aims]

theorem leastRest_pos (h : Partial aims) (k : ℕ) : 0 < leastRest aims k :=
  restAfter_pos h.most_nonneg h.restShare_pos k

theorem mostRest_pos (h : Partial aims) (k : ℕ) : 0 < mostRest aims k :=
  restAfter_pos h.least_nonneg h.restShare_pos k

/-- A pass brings a logit weight to its target part of the total, up to the tolerance, or leaves
it as it is if there is no target. -/
theorem pull_adjust_near (h : Partial aims) {x : Aim α} (hx : x ∈ aims) :
    |(x.adjust (x.pull / aimedPull aims)).pull - (x.goal * aimedPull aims + x.rest)|
      ≤ if x.target.isSome then recalibrationTolerance * aimedPull aims else 0 := by
  cases ht : x.target with
  | none =>
    rw [Aim.adjust_of_no_target ht, Aim.goal, Aim.rest, ht]
    simp
  | some t =>
    have htuned := Aim.tuned_adjust (h.aimed hx ht) (.inl (h.pull_pos hx)) h.aimedPull_pos
    rw [Aim.Tuned, Aim.goal_adjust] at htuned
    simpa [Aim.rest, ht] using htuned

/-- The total logit weight after a pass covers what the targets and the rest are of the one before,
up to the tolerances. -/
theorem aimedPull_adjusted_mem (h : Partial aims) :
    (goalTotal aims - goalTolerance aims + restShare aims) * aimedPull aims
        ≤ aimedPull (adjusted aims) ∧
      aimedPull (adjusted aims)
        ≤ (goalTotal aims + goalTolerance aims + restShare aims) * aimedPull aims := by
  have hpos := h.aimedPull_pos
  have hrest : restShare aims * aimedPull aims = restPull aims :=
    div_mul_cancel₀ _ hpos.ne'
  have hbefore : (aims.map fun x => x.goal * aimedPull aims + x.rest).sum
      = goalTotal aims * aimedPull aims + restPull aims := by
    rw [List.sum_map_add, List.sum_map_mul_right]
    rfl
  have herror := abs_sum_sub_sum_le_sum fun x hx => h.pull_adjust_near hx
  rw [hbefore, ← aimedPull_adjusted, sum_map_ite_const, ← mul_assoc] at herror
  change |_| ≤ goalTolerance aims * aimedPull aims at herror
  obtain ⟨hleast, hmost⟩ := abs_le.1 herror
  constructor <;> linarith

/-- A pass leaves the logit weights of those without a target, which are their part of the total. -/
theorem restShare_mul_adjusted (h : Partial aims) :
    restShare (adjusted aims) * aimedPull (adjusted aims) = restShare aims * aimedPull aims := by
  rw [restShare, restShare, div_mul_cancel₀ _ h.pass.aimedPull_pos.ne',
    div_mul_cancel₀ _ h.aimedPull_pos.ne', restPull_adjusted]

/-- What one pass makes of the part of those without a target. -/
theorem restShare_adjusted_mem (h : Partial aims) :
    restShare aims / (goalTotal aims + goalTolerance aims + restShare aims)
        ≤ restShare (adjusted aims) ∧
      restShare (adjusted aims)
        ≤ restShare aims / (goalTotal aims - goalTolerance aims + restShare aims) := by
  have hpos := h.aimedPull_pos
  have hrest := h.restShare_pos
  have hnext := h.pass.aimedPull_pos
  obtain ⟨hleast, hmost⟩ := h.aimedPull_adjusted_mem
  have hleft := add_pos_of_nonneg_of_pos h.least_nonneg hrest
  have hright := add_pos_of_nonneg_of_pos h.most_nonneg hrest
  rw [eq_div_of_mul_eq hnext.ne' h.restShare_mul_adjusted]
  constructor
  · rw [div_le_div_iff₀ hright hnext, mul_assoc]
    exact mul_le_mul_of_nonneg_left (by linarith) hrest.le
  · rw [div_le_div_iff₀ hnext hleft, mul_assoc]
    exact mul_le_mul_of_nonneg_left (by linarith) hrest.le

/-- What a number of passes make of it: more than passes for a bit more than the targets would, and
less than passes for a bit less. -/
theorem restShare_iterate_mem (h : Partial aims) (k : ℕ) :
    leastRest aims k ≤ restShare (adjusted^[k] aims) ∧
      restShare (adjusted^[k] aims) ≤ mostRest aims k := by
  refine restAfter_mem h.least_nonneg h.most_nonneg
    (fun k => (h.iterate k).restShare_pos) (fun k => ?_) k
  have hpass := (h.iterate k).restShare_adjusted_mem
  rw [(goals_iterate aims k).1, (goals_iterate aims k).2] at hpass
  rw [Function.iterate_succ_apply']
  exact hpass

/-- The share after a pass is the target out of what the targets and the rest cover before it, up to
the tolerance of its own and those of all. -/
theorem share_adjusted_mem (h : Partial aims) {x : Aim α} (hx : x ∈ aims) {t : α}
    (ht : x.target = some t) :
    (t - recalibrationTolerance) / (goalTotal aims + goalTolerance aims + restShare aims)
        ≤ (x.adjust (x.pull / aimedPull aims)).pull / aimedPull (adjusted aims) ∧
      (x.adjust (x.pull / aimedPull aims)).pull / aimedPull (adjusted aims)
        ≤ (t + recalibrationTolerance)
          / (goalTotal aims - goalTolerance aims + restShare aims) := by
  have hpos := h.aimedPull_pos
  have hrest := h.restShare_pos
  have hnext := h.pass.aimedPull_pos
  have htol : (0 : α) < recalibrationTolerance := recalibrationTolerance_pos
  have hcoarse := h.coarse x hx t ht
  have htuned := Aim.tuned_adjust (h.aimed hx ht) (.inl (h.pull_pos hx)) hpos
  rw [Aim.Tuned, Aim.goal_adjust, Aim.goal_of_target ht] at htuned
  obtain ⟨hown, hown'⟩ := abs_le.1 htuned
  obtain ⟨hleast, hmost⟩ := h.aimedPull_adjusted_mem
  have hleft := add_pos_of_nonneg_of_pos h.least_nonneg hrest
  have hright := add_pos_of_nonneg_of_pos h.most_nonneg hrest
  constructor
  · rw [div_le_div_iff₀ hright hnext]
    calc (t - recalibrationTolerance) * aimedPull (adjusted aims)
        ≤ (t - recalibrationTolerance)
          * ((goalTotal aims + goalTolerance aims + restShare aims) * aimedPull aims) :=
          mul_le_mul_of_nonneg_left hmost (by linarith)
      _ = (t - recalibrationTolerance) * aimedPull aims
          * (goalTotal aims + goalTolerance aims + restShare aims) := by ring
      _ ≤ _ := mul_le_mul_of_nonneg_right (by linarith) hright.le
  · rw [div_le_div_iff₀ hnext hleft]
    calc (x.adjust (x.pull / aimedPull aims)).pull
          * (goalTotal aims - goalTolerance aims + restShare aims)
        ≤ (t + recalibrationTolerance) * aimedPull aims
          * (goalTotal aims - goalTolerance aims + restShare aims) :=
          mul_le_mul_of_nonneg_right (by linarith) hleft.le
      _ = (t + recalibrationTolerance)
          * ((goalTotal aims - goalTolerance aims + restShare aims) * aimedPull aims) := by ring
      _ ≤ _ := mul_le_mul_of_nonneg_left hleast (by linarith)

end Partial

end NestedLogit
