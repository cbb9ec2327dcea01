import NestedLogit.Proofs.Choice.Feasibility
import NestedLogit.Proofs.Choice.Recalibration

/-!
# Targets that cannot be met

A recalibration of contenders who can share the market does not fail because a target is out of
reach, as long as those whom it leaves in the choice can take the market. It can take contenders out
of the choice, whose target is zero, or bring one back, and then the others may not be able to take
the market under their limits.

## Main definitions

- `Scarce` — markets that are too large for those who compete for them
- `Aim.staysIn` — contenders whom a recalibration does not take out of the choice

## Main statements

- `Contender.isEligible_iff` — who has a logit weight
- `recalibrate_fails_iff` — when exactly a recalibration fails, and when it is sure not to
- `squeezedAims_refused` — a market that can be shared out, but not with a target of zero

## Design notes

Shares in the choice are decided by the weights, but who takes part in it is not: a positive weight
stays positive for a positive target. The limits of those who take part can thus be compared before
and after the passes without any knowledge of the shares in between.
-/

namespace NestedLogit

variable {α : Type} [ExactQuantity α]

namespace Contender

/-- Whether a contender takes part in the choice: it has a positive share weight and a finite price,
and it is not turned away for costing nothing. -/
def TakesPart (c : Contender α) : Prop :=
  0 < c.shareWeight ∧ Quantity.isFinite c.price = true ∧ (0 < c.price ∨ c.logitExponent ≤ 0)

theorem weight_of_takesPart {c : Contender α} (h : c.TakesPart) :
    c.weight = .free c.shareWeight ∨ ∃ w, 0 < w ∧ c.weight = .priced w := by
  obtain ⟨hshare, hfinite, hprice⟩ := h
  have hin : (Quantity.isUndefined c.shareWeight || decide (c.shareWeight ≤ 0) ||
      !Quantity.isFinite c.price) = false := by
    simp [hshare, hfinite]
  rw [weight, logitWeight, hin, if_neg Bool.false_ne_true]
  by_cases hzero : c.price ≤ 0
  · rw [if_pos hzero]
    by_cases hexponent : c.logitExponent < 0
    · rw [if_pos hexponent]
      exact .inl rfl
    · have hle := hprice.resolve_left (not_lt.2 hzero)
      rw [if_neg hexponent, if_neg (not_lt.2 hle)]
      exact .inr ⟨_, hshare, rfl⟩
  · rw [if_neg hzero]
    dsimp only
    split
    · exact .inr ⟨_, mul_pos hshare (ExactQuantity.pow_positive _ (not_le.1 hzero)), rfl⟩
    · exact .inl rfl

theorem weight_of_not_takesPart {c : Contender α} (h : ¬c.TakesPart) : c.weight = .excluded := by
  unfold weight logitWeight
  split
  · rfl
  · next hin =>
    have hin : 0 < c.shareWeight ∧ Quantity.isFinite c.price = true := by
      simpa using hin
    have hout : ¬(0 < c.price ∨ c.logitExponent ≤ 0) := fun hprice => h ⟨hin.1, hin.2, hprice⟩
    rw [not_or, not_lt, not_le] at hout
    rw [if_pos hout.1, if_neg hout.2.le.not_gt, if_pos hout.2]

/-- Who has a logit weight: everybody who takes part and has no fixed share. -/
theorem isEligible_iff {c : Contender α} :
    c.isEligible = true ↔ c.fixedShare = none ∧ c.TakesPart := by
  unfold isEligible hasWeight freeWeight pricedWeight
  cases hfixed : c.fixedShare with
  | some s => simp
  | none =>
    by_cases h : c.TakesPart
    · rcases weight_of_takesPart h with hw | ⟨w, hpos, hw⟩
      · simp [h, hw]
      · simp [h, hw, hpos]
    · simp [h, weight_of_not_takesPart h]

end Contender

/-- A market that those who compete for it cannot take under their limits, and that no fixed shares
fill either. -/
structure Scarce (cs : List (Contender α)) : Prop where
  nonempty : cs ≠ []
  unfilled : ¬FixedSharesFill cs
  short : ((rivals cs).map Contender.capacityLimit).sum < openMarket cs - Quantity.shareTolerance

/-- Only those without a fixed share compete for a market. -/
theorem length_rivals_le (cs : List (Contender α)) :
    (rivals cs).length ≤ cs.countP fun c => c.fixedShare.isNone := by
  unfold rivals
  split
  · rw [← List.countP_eq_length_filter]
    apply List.countP_mono_left
    intro c _ hc
    rw [(Contender.isEligible_iff.1 hc).1]
    rfl
  · split
    · exact List.countP_eq_length_filter.ge
    · exact Nat.zero_le _

theorem limit_nonneg_of_allocate {cs : List (Contender α)} {a : Allocation α}
    (h : allocate cs = .ok a) : ∀ c ∈ cs, 0 ≤ c.capacityLimit := by
  intro c hc
  obtain ⟨⟨hadmissible, -⟩, -⟩ := allocate_eq_ok (List.ne_nil_of_mem hc) h
  exact (hadmissible c hc).limit_nonneg

/-- Contenders who pass the checks fail to share a market if it is scarce or the passes over their
limits do not end, unless nobody is there at all. -/
theorem allocate_fails_of_checked {cs : List (Contender α)} (hc : ∀ c ∈ cs, c.Admissible)
    (hle : fixedTotal cs ≤ 1 + Quantity.shareTolerance)
    (hsome : ¬((∀ c ∈ cs, c.fixedShare.isSome = true) ∧ fixedTotal cs = 0)) :
    (∃ e, allocate cs = .error e) ↔
      Scarce cs ∨
        allocate cs = .error (.limits .notConverged) ∧ maxLimitPasses ≤ (rivals cs).length := by
  have hne : cs ≠ [] := by
    rintro rfl
    exact hsome ⟨by simp, rfl⟩
  have hscarce : Infeasible cs ↔ Scarce cs := by
    rw [infeasible_iff_of_checked hc hle, or_iff_right hsome]
    exact ⟨fun h => ⟨hne, h.1, h.2⟩, fun h => ⟨h.unfilled, h.short⟩⟩
  have hending := ending_allocate hne
  constructor
  · rintro ⟨e, he⟩
    rw [he] at hending
    cases hending with
    | refused hinfeasible => exact .inl (hscarce.1 hinfeasible)
    | cutOff hmany => exact .inr ⟨he, hmany⟩
  · rintro (h | ⟨he, -⟩)
    · cases ha : allocate cs with
      | error e => exact ⟨e, rfl⟩
      | ok a =>
        rw [ha] at hending
        cases hending with
        | shared hfeasible => exact absurd (hscarce.2 h) hfeasible
    · exact ⟨_, he⟩

namespace Aim

/-- Whether a contender is in the choice and a recalibration does not take it out. -/
def staysIn (x : Aim α) : Bool :=
  x.contender.isEligible && x.target.all (0 < ·)

namespace Recalibrated

variable {x y : Aim α}

theorem admissible (h : x.Recalibrated y) (hx : x.contender.Admissible) :
    y.contender.Admissible := by
  obtain ⟨hl0, hl1, hs0, hs1, hsl⟩ := hx
  rw [← h.fixedShare] at hs0 hs1 hsl
  rw [← h.capacityLimit] at hl0 hl1 hsl
  exact ⟨hl0, hl1, hs0, hs1, hsl⟩

/-- Who is not taken out of the choice is in it at the end. -/
theorem isEligible (h : x.Recalibrated y) (hx : x.staysIn = true) :
    y.contender.isEligible = true := by
  rw [staysIn, Bool.and_eq_true, Contender.isEligible_iff] at hx
  obtain ⟨⟨hfixed, hshare, hfinite, hprice⟩, htarget⟩ := hx
  have htarget : ∀ t, x.target = some t → 0 < t := by
    intro t ht
    rw [ht] at htarget
    simpa using htarget
  rw [Contender.isEligible_iff, h.fixedShare, Contender.TakesPart, h.price, h.logitExponent]
  exact ⟨hfixed, h.pos hshare htarget, hfinite, hprice⟩

end Recalibrated

end Aim

section Left

variable {aims left : List (Aim α)}

theorem fixedTotal_left (h : List.Forall₂ Aim.Recalibrated aims left) :
    fixedTotal (left.map Aim.contender) = fixedTotal (aims.map Aim.contender) := by
  have hshares : (aims.filterMap fun x => x.contender.fixedShare)
      = left.filterMap fun x => x.contender.fixedShare :=
    filterMap_eq_of_forall₂ h fun {x y} hxy => hxy.fixedShare.symm
  rw [fixedTotal, fixedTotal, List.filterMap_map, List.filterMap_map]
  exact congrArg Quantity.total hshares.symm

theorem openMarket_left (h : List.Forall₂ Aim.Recalibrated aims left) :
    openMarket (left.map Aim.contender) = openMarket (aims.map Aim.contender) := by
  rw [openMarket, openMarket, fixedTotal_left h]

theorem length_rivals_left_le (h : List.Forall₂ Aim.Recalibrated aims left) :
    (rivals (left.map Aim.contender)).length
      ≤ aims.countP fun x => x.contender.fixedShare.isNone := by
  refine (length_rivals_le _).trans ?_
  rw [List.countP_map]
  induction h with
  | nil => exact le_rfl
  | cons hxy _ ih =>
    rw [List.countP_cons, List.countP_cons, Function.comp_apply, hxy.fixedShare]
    exact Nat.add_le_add_right ih _

/-- Those who are left in the choice can take at least as much as those who are sure to stay. -/
theorem sum_staysIn_le (h : List.Forall₂ Aim.Recalibrated aims left)
    (hlimit : ∀ x ∈ aims, 0 ≤ x.contender.capacityLimit) :
    ((aims.filter Aim.staysIn).map fun x => x.contender.capacityLimit).sum
      ≤ (((left.map Aim.contender).filter Contender.isEligible).map
          Contender.capacityLimit).sum := by
  induction h with
  | nil => exact le_rfl
  | @cons x y xs ys hxy _ ih =>
    rw [List.forall_mem_cons] at hlimit
    have ih := ih hlimit.2
    have hy : 0 ≤ y.contender.capacityLimit := hxy.capacityLimit ▸ hlimit.1
    rw [List.map_cons]
    by_cases hx : x.staysIn = true
    · rw [List.filter_cons_of_pos hx, List.filter_cons_of_pos (hxy.isEligible hx), List.map_cons,
        List.map_cons, List.sum_cons, List.sum_cons, hxy.capacityLimit]
      exact add_le_add_right ih _
    · rw [List.filter_cons_of_neg hx]
      by_cases hmem : y.contender.isEligible = true
      · rw [List.filter_cons_of_pos hmem, List.map_cons, List.sum_cons]
        exact ih.trans (le_add_of_nonneg_left hy)
      · rw [List.filter_cons_of_neg hmem]
        exact ih

/-- Those who stay in the choice keep a market from being scarce, if they can take it. -/
theorem not_scarce_left (h : List.Forall₂ Aim.Recalibrated aims left)
    (hlimit : ∀ x ∈ aims, 0 ≤ x.contender.capacityLimit)
    (henough : openMarket (aims.map Aim.contender) - Quantity.shareTolerance ≤
      ((aims.filter Aim.staysIn).map fun x => x.contender.capacityLimit).sum) :
    ¬Scarce (left.map Aim.contender) := by
  rintro ⟨-, -, hshort⟩
  have hsum := henough.trans (sum_staysIn_le h hlimit)
  rw [← openMarket_left h] at hsum
  unfold rivals at hshort
  split at hshort
  · exact absurd hsum (not_le.2 hshort)
  · next hnone =>
    -- Nobody is in the choice, so that nearly nothing is open.
    have hempty : (left.map Aim.contender).filter Contender.isEligible = [] := by
      rw [List.filter_eq_nil_iff]
      intro c hc hmem
      exact hnone (List.any_eq_true.2 ⟨c, hc, hmem⟩)
    rw [hempty, List.map_nil, List.sum_nil, sub_nonpos] at hsum
    rw [if_neg (not_lt.2 hsum), List.map_nil, List.sum_nil, sub_pos] at hshort
    exact absurd hsum (not_le.2 hshort)

/-- When contenders fail to share a market who could share it before they were recalibrated. -/
theorem allocate_left_fails_iff (hleft : List.Forall₂ Aim.Recalibrated aims left)
    {a : Allocation α} (h : allocate (aims.map Aim.contender) = .ok a) :
    (∃ e, allocate (left.map Aim.contender) = .error e) ↔
      Scarce (left.map Aim.contender) ∨
        allocate (left.map Aim.contender) = .error (.limits .notConverged) ∧
          maxLimitPasses ≤ (rivals (left.map Aim.contender)).length := by
  by_cases hne : aims = []
  · subst hne
    cases hleft
    have hok : allocate ([] : List (Contender α)) = .ok ⟨[], none⟩ := rfl
    constructor
    · rintro ⟨e, he⟩
      cases hok.symm.trans he
    · rintro (hscarce | ⟨he, -⟩)
      · exact absurd rfl hscarce.nonempty
      · cases hok.symm.trans he
  · have hne : aims.map Aim.contender ≠ [] := fun hempty => hne (List.map_eq_nil_iff.1 hempty)
    obtain ⟨⟨hc, hle⟩, -⟩ := allocate_eq_ok hne h
    have hc : ∀ x ∈ aims, x.contender.Admissible := List.forall_mem_map.1 hc
    have hsame := fixedTotal_left hleft
    apply allocate_fails_of_checked
    · rw [List.forall_mem_map]
      exact forall_mem_of_forall₂ hleft fun x hx y hxy => hxy.admissible (hc x hx)
    · rw [hsame]
      exact hle
    · -- Nobody would have been there from the beginning.
      rintro ⟨hfixed, hzero⟩
      have hfixed' : ∀ x ∈ aims, x.contender.fixedShare.isSome = true :=
        forall_mem_of_forall₂ hleft.flip fun y hy x hxy =>
          hxy.fixedShare ▸ hfixed _ (List.mem_map_of_mem hy)
      have hending := ending_allocate hne
      rw [h] at hending
      cases hending with
      | shared hfeasible =>
        exact hfeasible (.nobodyAvailable (List.forall_mem_map.2 hfixed') (hsame ▸ hzero))

end Left

/-- If contenders can share a market, a recalibration fails exactly if it leaves a market that is
scarce, or one in which as many compete as there are passes over the limits and these do not end.
It cannot fail if fewer compete and those who stay in the choice can take the open market. -/
theorem recalibrate_fails_iff {aims : List (Aim α)} {a : Allocation α}
    (h : allocate (aims.map Aim.contender) = .ok a) :
    ((∃ e, (recalibrate aims).outcome = .error e) ↔
        Scarce (recalibrate aims).contenders ∨
          (recalibrate aims).outcome = .error (.limits .notConverged) ∧
            maxLimitPasses ≤ (rivals (recalibrate aims).contenders).length) ∧
      ((aims.countP fun x => x.contender.fixedShare.isNone) < maxLimitPasses →
        openMarket (aims.map Aim.contender) - Quantity.shareTolerance ≤
          ((aims.filter Aim.staysIn).map fun x => x.contender.capacityLimit).sum →
        ∃ b, (recalibrate aims).outcome = .ok b) := by
  obtain ⟨left, hleft, hrecalibrate⟩ := recalibrate_left aims
  rw [hrecalibrate]
  have hfails := allocate_left_fails_iff hleft h
  refine ⟨hfails, ?_⟩
  intro hfew henough
  dsimp only
  cases hb : allocate (left.map Aim.contender) with
  | ok b => exact ⟨b, rfl⟩
  | error e =>
    rcases hfails.1 ⟨e, hb⟩ with hscarce | ⟨-, hmany⟩
    · have hlimit := List.forall_mem_map.1 (limit_nonneg_of_allocate h)
      exact absurd hscarce (not_scarce_left hleft hlimit henough)
    · exact absurd (hmany.trans (length_rivals_left_le hleft)) (not_le.2 hfew)

/-- Two plants of which one can take half of the market and the other has a target. -/
def squeezedAims (target : ℚ) : List (Aim ℚ) :=
  [⟨⟨1, 1, -1, 1 / 2, none⟩, none⟩, ⟨⟨1, 1, -1, 1, none⟩, some target⟩]

theorem allocate_squeezedAims (target : ℚ) :
    allocate ((squeezedAims target).map Aim.contender)
      = .ok ⟨[⟨1 / 2, false⟩, ⟨1 / 2, false⟩], none⟩ := by
  change allocate [⟨1, 1, -1, 1 / 2, none⟩, ⟨1, 1, -1, 1, none⟩] = _
  with_unfolding_all rfl

/-- A target of a quarter is out of reach, because the other plant cannot take the rest, and is left
unmet. -/
theorem squeezedAims_left_unmet :
    let aims := squeezedAims (1 / 4)
    allocate (aims.map Aim.contender) = .ok ⟨[⟨1 / 2, false⟩, ⟨1 / 2, false⟩], none⟩ ∧
      ((∃ e, (recalibrate aims).outcome = .error e) ↔
        Scarce (recalibrate aims).contenders ∨
          (recalibrate aims).outcome = .error (.limits .notConverged) ∧
            maxLimitPasses ≤ (rivals (recalibrate aims).contenders).length) ∧
      ((aims.countP fun x => x.contender.fixedShare.isNone) < maxLimitPasses ∧
        openMarket (aims.map Aim.contender) - Quantity.shareTolerance ≤
          ((aims.filter Aim.staysIn).map fun x => x.contender.capacityLimit).sum) ∧
      ∃ b, (recalibrate aims).outcome = .ok b := by
  intro aims
  have h := allocate_squeezedAims (1 / 4)
  have hfew : (aims.countP fun x => x.contender.fixedShare.isNone) < maxLimitPasses := by decide
  have henough : openMarket (aims.map Aim.contender) - Quantity.shareTolerance ≤
      ((aims.filter Aim.staysIn).map fun x => x.contender.capacityLimit).sum := by
    decide +kernel
  obtain ⟨hfails, hok⟩ := recalibrate_fails_iff h
  exact ⟨h, hfails, ⟨hfew, henough⟩, hok hfew henough⟩

/-- A target of zero is out of reach for the same reason, and the recalibration fails. -/
theorem squeezedAims_refused :
    (∀ x ∈ squeezedAims 0, 0 ≤ x.contender.shareWeight ∧
        ∀ t, x.target = some t → 0 ≤ t ∧ t ≤ 1) ∧
      (∃ a, allocate ((squeezedAims 0).map Aim.contender) = .ok a) ∧
      (recalibrate (squeezedAims 0)).outcome = .error (.limits (.unallocated (1 / 2))) := by
  refine ⟨?_, ⟨_, allocate_squeezedAims 0⟩, by with_unfolding_all rfl⟩
  simp [squeezedAims]

end NestedLogit
