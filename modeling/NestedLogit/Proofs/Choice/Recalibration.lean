import NestedLogit.Proofs.Quantity.Exact
import NestedLogit.Proofs.Choice.Awards

/-!
# What a recalibration changes

A recalibration touches share weights only, and only those of contenders that have a target and no
fixed share. What it reports is what the weights give that it leaves, also when it fails and when it
has made all of its passes.

## Main definitions

- `Aim.Recalibrated` — what passes may do to an aim

## Main statements

- `Aim.recalibrated_adjust` — one adjustment
- `recalibrate_left` — all passes
- `recalibrate_explained` — the weights that are left explain the outcome
-/

namespace NestedLogit

variable {α : Type}

namespace Aim

/-- What passes may do to an aim. Nothing but the share weight changes, and that only if there is a
target and no fixed share. A weight does not become negative, and one that is positive does not
become zero unless the target is. -/
structure Recalibrated [Quantity α] (x y : Aim α) : Prop where
  target : y.target = x.target
  price : y.contender.price = x.contender.price
  logitExponent : y.contender.logitExponent = x.contender.logitExponent
  capacityLimit : y.contender.capacityLimit = x.contender.capacityLimit
  fixedShare : y.contender.fixedShare = x.contender.fixedShare
  aimed : y.contender.shareWeight ≠ x.contender.shareWeight →
    x.target.isSome = true ∧ x.contender.fixedShare = none
  nonneg : 0 ≤ x.contender.shareWeight → 0 ≤ y.contender.shareWeight
  pos : 0 < x.contender.shareWeight → (∀ t, x.target = some t → 0 < t) →
    0 < y.contender.shareWeight

namespace Recalibrated

variable [Quantity α] {x y z : Aim α}

theorem refl (x : Aim α) : x.Recalibrated x :=
  ⟨rfl, rfl, rfl, rfl, rfl, fun h => absurd rfl h, id, fun h _ => h⟩

theorem trans (h : x.Recalibrated y) (h' : y.Recalibrated z) : x.Recalibrated z where
  target := h'.target.trans h.target
  price := h'.price.trans h.price
  logitExponent := h'.logitExponent.trans h.logitExponent
  capacityLimit := h'.capacityLimit.trans h.capacityLimit
  fixedShare := h'.fixedShare.trans h.fixedShare
  aimed hne := by
    by_cases hxy : y.contender.shareWeight = x.contender.shareWeight
    · rw [← h.target, ← h.fixedShare]
      exact h'.aimed (hxy ▸ hne)
    · exact h.aimed hxy
  nonneg hx := h'.nonneg (h.nonneg hx)
  pos hx ht := h'.pos (h.pos hx ht) (h.target ▸ ht)

/-- Without a target nothing changes. -/
theorem eq_of_no_target (h : x.Recalibrated y) (hx : x.target = none) : y = x := by
  have hweight : y.contender.shareWeight = x.contender.shareWeight := by
    by_contra hne
    have htarget := (h.aimed hne).1
    rw [hx] at htarget
    cases htarget
  obtain ⟨⟨_, _, _, _, _⟩, _⟩ := x
  obtain ⟨⟨_, _, _, _, _⟩, _⟩ := y
  obtain ⟨htarget, hprice, hexponent, hlimit, hfixed, -, -, -⟩ := h
  cases htarget
  cases hprice
  cases hexponent
  cases hlimit
  cases hfixed
  cases hweight
  rfl

end Recalibrated

variable [ExactQuantity α]

/-- The adjustments there are: a contender is taken out for a target of zero, its weight is scaled
by the ratio of target to share, or it is brought back with a weight of one. -/
theorem adjustment_eq_some {x : Aim α} {share weight : α} (h : x.adjustment share = some weight) :
    ∃ t, x.target = some t ∧ x.contender.fixedShare = none ∧
      recalibrationTolerance < Quantity.magnitude (share - t) ∧
      (t ≤ 0 ∧ weight = 0 ∨
        0 < t ∧ 0 < share ∧ weight = x.contender.shareWeight * (t / share) ∨
        0 < t ∧ share ≤ 0 ∧ x.contender.shareWeight ≤ 0 ∧ weight = 1) := by
  unfold adjustment at h
  cases ht : x.target with
  | none =>
    rw [ht] at h
    cases h
  | some t =>
    rw [ht] at h
    dsimp only at h
    split at h
    · cases h
    · next hmissed =>
      have hmissed : x.contender.fixedShare = none ∧
          recalibrationTolerance < Quantity.magnitude (share - t) := by
        simpa using hmissed
      refine ⟨t, rfl, hmissed.1, hmissed.2, ?_⟩
      by_cases hzero : t ≤ 0
      · rw [if_pos hzero] at h
        cases h
        exact .inl ⟨hzero, rfl⟩
      · rw [if_neg hzero] at h
        by_cases hshare : 0 < share
        · rw [if_pos hshare] at h
          cases h
          exact .inr (.inl ⟨not_le.1 hzero, hshare, rfl⟩)
        · rw [if_neg hshare] at h
          split at h
          · next hweight =>
            cases h
            exact .inr (.inr ⟨not_le.1 hzero, not_lt.1 hshare, hweight, rfl⟩)
          · cases h

/-- One adjustment. -/
theorem recalibrated_adjust (x : Aim α) (share : α) : x.Recalibrated (x.adjust share) := by
  unfold adjust
  cases h : x.adjustment share with
  | none => exact .refl x
  | some weight =>
    obtain ⟨t, ht, hfixed, -, hweight⟩ := adjustment_eq_some h
    refine ⟨rfl, rfl, rfl, rfl, rfl, fun _ => ⟨by rw [ht]; rfl, hfixed⟩, ?_, ?_⟩
    · intro hx
      rcases hweight with ⟨-, rfl⟩ | ⟨hpos, hshare, rfl⟩ | ⟨-, -, -, rfl⟩
      · exact le_rfl
      · exact mul_nonneg hx (div_pos hpos hshare).le
      · exact zero_le_one
    · intro hx htarget
      rcases hweight with ⟨hzero, -⟩ | ⟨hpos, hshare, rfl⟩ | ⟨-, -, -, rfl⟩
      · exact absurd hzero (not_le.2 (htarget t ht))
      · exact mul_pos hx (div_pos hpos hshare)
      · exact zero_lt_one

end Aim

variable [ExactQuantity α]

/-- What a recalibration leaves, whether it succeeds or fails. -/
theorem recalibrate_left (aims : List (Aim α)) :
    ∃ left, List.Forall₂ Aim.Recalibrated aims left ∧
      recalibrate aims = ⟨left.map Aim.contender, allocate (left.map Aim.contender)⟩ :=
  recalibrate_adjusted Aim.Recalibrated.refl (fun h h' => h.trans h') Aim.recalibrated_adjust aims

/-- No share weight becomes negative. -/
theorem shareWeight_nonneg_recalibrate {aims : List (Aim α)}
    (h : ∀ x ∈ aims, 0 ≤ x.contender.shareWeight) :
    ∀ c ∈ (recalibrate aims).contenders, 0 ≤ c.shareWeight := by
  obtain ⟨left, hleft, hrecalibrate⟩ := recalibrate_left aims
  rw [hrecalibrate]
  exact List.forall_mem_map.2
    (forall_mem_of_forall₂ hleft fun x hx y hxy => hxy.nonneg (h x hx))

/-- The weights that are left explain the outcome. -/
theorem allocate_contenders_recalibrate (aims : List (Aim α)) :
    allocate (recalibrate aims).contenders = (recalibrate aims).outcome := by
  obtain ⟨left, -, hrecalibrate⟩ := recalibrate_left aims
  rw [hrecalibrate]

theorem forall₂_contenders_recalibrate (aims : List (Aim α)) :
    List.Forall₂ (fun x c => x.Recalibrated { x with contender := c }) aims
      (recalibrate aims).contenders := by
  obtain ⟨left, hleft, hrecalibrate⟩ := recalibrate_left aims
  rw [hrecalibrate]
  refine List.forall₂_map_right_iff.2 (hleft.imp fun x y h => ?_)
  have hy : { x with contender := y.contender } = y := by
    rw [← h.target]
  rw [hy]
  exact h

/-- The outcome of a recalibration is that of an allocation of the contenders as it leaves them, and
it leaves them as they were but for share weights, which it changes for contenders with a target and
without a fixed share and does not make negative. -/
theorem recalibrate_explained (aims : List (Aim α)) :
    allocate (recalibrate aims).contenders = (recalibrate aims).outcome ∧
      List.Forall₂ (fun x c => x.Recalibrated { x with contender := c }) aims
        (recalibrate aims).contenders :=
  ⟨allocate_contenders_recalibrate aims, forall₂_contenders_recalibrate aims⟩

/-- A plant with an imposed share, one that shall win from another, and that other one. -/
def shiftedAims : List (Aim ℚ) :=
  [⟨⟨1, 2, -1, 1, some (1 / 5)⟩, some (1 / 2)⟩, ⟨⟨1, 1, -1, 1, none⟩, some (3 / 5)⟩,
    ⟨⟨1, 1, -1, 1, none⟩, some (1 / 5)⟩, ⟨⟨0, 1, -1, 1, none⟩, none⟩]

example :
    (recalibrate shiftedAims).contenders.map Contender.shareWeight = [1, 3 / 2, 1 / 2, 0] := by
  decide +kernel

end NestedLogit
