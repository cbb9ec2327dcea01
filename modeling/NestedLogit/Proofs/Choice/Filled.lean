import NestedLogit.Proofs.Choice.Unlimited
import NestedLogit.Proofs.Choice.Unmet

/-!
# Markets that fixed shares fill

Where fixed shares fill a market nothing is open. Everybody has their fixed share then, and whoever
has none has nothing, whatever they weigh, so that a recalibration adjusts its weights once and ends
with the allocation it began with. Where anything is open, a free contender gets a part of it.

## Main definitions

- `fixedAwards` — what a market is shared out to that fixed shares fill
- `Aim.settle` — an aim after it was adjusted to its fixed share

## Main statements

- `allocate_filled`, `recalibrate_filled` — everybody has their fixed share
- `forall₂_share_pos_allocate` — what is open goes to the free contenders
-/

namespace NestedLogit

variable {α : Type} [ExactQuantity α]

theorem portion_zero (total w : α) : portion 0 total w = 0 := by
  unfold portion
  split
  · rw [zero_mul, zero_div]
  · rfl

/-- A pass that shares out nothing leaves a holding of nothing as it is. -/
theorem Holding.pass_zero {h : Holding α} {total : α} (hshare : h.share = 0)
    (hfits : ¬h.overflows 0 total = true) : h.pass 0 total = h := by
  cases hw : h.openWeight with
  | none => exact pass_of_closed hw
  | some w => rw [pass_of_fits hw (Bool.eq_false_iff.2 hfits), portion_zero, ← hshare]

section Pool

variable {pool : α} {claims : List (Claim α)}

/-- There is nothing to be had of nothing, and nobody is limited by that. -/
theorem distribute_zero (hw : ∀ c ∈ claims, ∀ w, c.weight = some w → 0 ≤ w)
    (hl : ∀ c ∈ claims, 0 ≤ c.limit) :
    distribute 0 claims = .ok ⟨claims.map Holding.start, 0⟩ := by
  have hfits := no_overflows_of_ample le_rfl hw hl
  have hstays : (claims.map Holding.start).map
      (Holding.pass 0 (openTotal (claims.map Holding.start))) = claims.map Holding.start := by
    rw [List.map_map]
    refine List.map_congr_left fun c hc => ?_
    exact Holding.pass_zero rfl (hfits _ (List.mem_map_of_mem hc))
  rw [distribute, maxLimitPasses, passes]
  dsimp only
  rw [openPool_start le_rfl, List.any_eq_false.2 hfits, hstays]
  split <;> rfl

/-- Whoever competes for something and could take something gets something. -/
theorem share_pos_of_competes {d : Distribution α} (hpool : 0 < pool)
    (hw : ∀ c ∈ claims, ∀ w, c.weight = some w → 0 ≤ w) (hl : ∀ c ∈ claims, 0 ≤ c.limit)
    (h : distribute pool claims = .ok d) {x : Holding α} (hx : x ∈ d.holdings)
    (hcompetes : x.Competes) (hlimit : 0 < x.limit) : 0 < x.share := by
  have haccounts := distribute_accounts hpool.le hw hl h
  rcases distribute_atLevel hpool.le hw hl h with hlimited | ⟨hnothing, level, hlevel, hat⟩
  · rwa [(haccounts.sound x hx).share_of_limited (hlimited x hx hcompetes)]
  · have hpos : 0 < level := by
      refine hlevel.lt_of_ne' fun hzero => hpool.ne' ?_
      -- At a level of zero nobody would have anything.
      have hnobody : ∀ y ∈ d.holdings.map Holding.share, y = 0 := by
        refine List.forall_mem_map.2 fun y hy => ?_
        have hsound := haccounts.sound y hy
        cases hweight : y.weight with
        | none =>
          refine hsound.share_eq_zero fun hc => ?_
          obtain ⟨w, hsome, -⟩ := hc
          cases hweight.symm.trans hsome
        | some w =>
          rw [(hat y hy).share_eq w hweight, hzero, zero_mul, min_eq_right hsound.limit_nonneg]
      rw [← haccounts.sum_eq, hnothing, List.sum_eq_zero hnobody, add_zero]
    obtain ⟨w, hweight, hwpos⟩ := hcompetes
    rw [(hat x hx).share_eq w hweight]
    exact lt_min hlimit (mul_pos hpos hwpos)

end Pool

section Market

variable {cs : List (Contender α)}

theorem openMarket_eq_zero (h : 1 ≤ fixedTotal cs) : openMarket cs = 0 := by
  rw [openMarket, Quantity.larger_eq_max, max_eq_right (sub_nonpos.2 h)]

/-- What a market is shared out to that fixed shares fill. -/
def fixedAwards (cs : List (Contender α)) : List (Award α) :=
  cs.map fun c => ⟨c.fixedPart, false⟩

theorem shareOpenMarket_filled {free priced : Contender α → Option α} (hw : Weighing free priced)
    (hc : ∀ c ∈ cs, c.Admissible) (hfull : 1 ≤ fixedTotal cs) :
    shareOpenMarket cs free priced = .ok (fixedAwards cs) := by
  obtain ⟨hfw, hfl⟩ := sound_claims hw.free_pos hc
  have hfirst := distribute_zero hfw hfl
  rw [← openMarket_eq_zero hfull] at hfirst
  refine shareOpenMarket_of_start hw hfirst (if_neg ?_)
  rw [openMarket_eq_zero hfull]
  exact not_lt.2 Quantity.shareTolerance_pos.le

/-- In a market that fixed shares fill everybody has their fixed share, and nobody else has
anything. -/
theorem allocate_filled (hc : ∀ c ∈ cs, c.Admissible)
    (hle : fixedTotal cs ≤ 1 + Quantity.shareTolerance) (hfull : 1 ≤ fixedTotal cs) :
    allocate cs = .ok ⟨fixedAwards cs, none⟩ := by
  have hne : cs ≠ [] := by
    rintro rfl
    exact absurd hfull (not_le.2 zero_lt_one)
  have hfits : ¬needsFallback cs = true := by
    rw [needsFallback_iff, openMarket_eq_zero hfull]
    exact fun h => lt_irrefl _ (h.1.trans Quantity.shareTolerance_pos)
  rw [allocate, if_neg (by simpa using hne), checkContenders_eq_ok_iff.2 ⟨hc, hle⟩]
  change allocateChecked cs = _
  rw [allocateChecked, if_neg hfits, shareOpenMarket_filled weighing_logit hc hfull]
  rfl

/-- Of what fixed shares leave open every free contender that could take something gets a part. -/
theorem forall₂_share_pos_allocate {a : Allocation α} (h : allocate cs = .ok a)
    (hopen : 0 < openMarket cs) :
    List.Forall₂ (fun c share => ∀ w, c.freeWeight = some w → 0 < c.capacityLimit → 0 < share)
      cs a.shares := by
  -- With a fallback nobody has a weight, and so nobody is free.
  have hfallback : needsFallback cs = true →
      List.Forall₂ (fun c share => ∀ w, c.freeWeight = some w → 0 < c.capacityLimit → 0 < share)
        cs a.shares := by
    intro hneeded
    obtain ⟨-, hnobody⟩ := needsFallback_iff.1 hneeded
    refine List.forall₂_iff_zip.2 ⟨(allocate_length_shares h).symm, fun hmem w hfree => ?_⟩
    have heligible := List.any_eq_false.1 hnobody _ (List.of_mem_zip hmem).1
    simp [Contender.isEligible, Contender.hasWeight, hfree] at heligible
  by_cases hne : cs = []
  · subst hne
    cases h
    exact .nil
  · obtain ⟨⟨hc, -⟩, hby⟩ := allocate_eq_ok hne h
    cases hby with
    | logit _ hshared =>
      obtain ⟨first, second, hfirst, -, hholds, rfl⟩ :=
        shareOpenMarket_holds weighing_logit hc hshared
      obtain ⟨hfw, hfl⟩ := sound_claims weighing_logit.free_pos hc
      have hpos : ∀ h ∈ first.holdings.zip second,
          h.1.Competes → 0 < h.1.limit → 0 < h.1.share :=
        fun h hmem => share_pos_of_competes hopen hfw hfl hfirst (List.of_mem_zip hmem).1
      rw [Allocation.shares, List.forall₂_map_right_iff]
      refine forall₂_zipWith_of_forall₂ (forall₂_and_right hholds hpos) ?_
      rintro c h ⟨hh, hpos⟩ w hfree hlimit
      have hweight : h.1.weight = some w := (congrArg Claim.weight hh.free_claim).trans hfree
      have hlimit' : h.1.limit = c.capacityLimit := congrArg Claim.limit hh.free_claim
      rw [Contender.award, if_pos (Option.isSome_iff_exists.2 ⟨w, hweight⟩)]
      exact hpos ⟨w, hweight, weighing_logit.free_pos c w hfree⟩ (hlimit' ▸ hlimit)
    | scaled hneeded _ => exact hfallback hneeded
    | equal hneeded _ _ => exact hfallback hneeded

end Market

namespace Aim

/-- An aim after it was adjusted to its fixed share. -/
def settle (x : Aim α) : Aim α :=
  x.adjust x.contender.fixedPart

theorem recalibrated_settle (x : Aim α) : x.Recalibrated x.settle :=
  x.recalibrated_adjust _

@[simp] theorem fixedPart_settle (x : Aim α) :
    x.settle.contender.fixedPart = x.contender.fixedPart :=
  congrArg (fun fixed => fixed.getD 0) x.recalibrated_settle.fixedShare

/-- After one adjustment to its fixed share a contender needs no other. -/
theorem settle_settle (x : Aim α) : x.settle.settle = x.settle := by
  rw [settle, fixedPart_settle, settle]
  cases h : x.adjustment x.contender.fixedPart with
  | none => rw [adjust_of_none h, adjust_of_none h]
  | some weight =>
    obtain ⟨t, ht, hfixed, hmissed, hweight⟩ := adjustment_eq_some h
    have hnothing : x.contender.fixedPart = 0 := by
      rw [Contender.fixedPart, hfixed, Option.getD_none]
    rw [adjust_of_some h]
    rw [hnothing, zero_sub] at hmissed
    rw [hnothing] at hweight ⊢
    rcases hweight with ⟨hzero, rfl⟩ | ⟨-, hshare, -⟩ | ⟨hpos, -, -, rfl⟩
    · -- The weight is set to zero once more.
      refine adjust_of_some ?_
      simp [adjustment, ht, hfixed, hmissed, hzero]
    · exact absurd hshare (lt_irrefl _)
    · -- A positive weight is left alone by a share of nothing.
      refine adjust_of_none ?_
      simp [adjustment, ht, hpos.not_ge, zero_lt_one.not_ge]

end Aim

section Recalibration

variable {aims : List (Aim α)}

theorem shares_fixedAwards (aims : List (Aim α)) :
    Allocation.shares ⟨fixedAwards (aims.map Aim.contender), none⟩
      = aims.map fun x => x.contender.fixedPart := by
  rw [Allocation.shares, fixedAwards, List.map_map, List.map_map]
  rfl

theorem fixedAwards_settle (aims : List (Aim α)) :
    fixedAwards ((aims.map Aim.settle).map Aim.contender)
      = fixedAwards (aims.map Aim.contender) := by
  simp [fixedAwards, Function.comp_def]

/-- Passes over aims that are settled change nothing. -/
theorem recalibrationPasses_settled (fuel : ℕ) (hsettled : ∀ x ∈ aims, x.settle = x)
    (h : allocate (aims.map Aim.contender) = .ok ⟨fixedAwards (aims.map Aim.contender), none⟩) :
    recalibrationPasses fuel aims ⟨fixedAwards (aims.map Aim.contender), none⟩
      = ⟨aims.map Aim.contender, .ok ⟨fixedAwards (aims.map Aim.contender), none⟩⟩ := by
  induction fuel with
  | zero => rfl
  | succ fuel ih =>
    rcases recalibrationPasses_succ (shares_fixedAwards aims) fuel with ⟨-, hends⟩ | hgoes
    · exact hends
    · have hsame : (aims.map fun x => x.adjust x.contender.fixedPart) = aims :=
        (List.map_congr_left hsettled).trans (List.map_id' _)
      rw [hsame] at hgoes
      rw [hgoes _ h, ih]

/-- In a market that fixed shares fill a recalibration settles the weights in one pass, and
everybody has their fixed share. -/
theorem recalibrate_filled (hc : ∀ x ∈ aims, x.contender.Admissible)
    (hle : fixedTotal (aims.map Aim.contender) ≤ 1 + Quantity.shareTolerance)
    (hfull : 1 ≤ fixedTotal (aims.map Aim.contender)) :
    recalibrate aims = ⟨(aims.map Aim.settle).map Aim.contender,
      .ok ⟨fixedAwards (aims.map Aim.contender), none⟩⟩ := by
  have hsettled : allocate ((aims.map Aim.settle).map Aim.contender)
      = .ok ⟨fixedAwards ((aims.map Aim.settle).map Aim.contender), none⟩ := by
    have hleft : List.Forall₂ Aim.Recalibrated aims (aims.map Aim.settle) :=
      forall₂_map_self Aim.recalibrated_settle aims
    have hadmissible : ∀ x ∈ aims.map Aim.settle, x.contender.Admissible :=
      List.forall_mem_map.2 fun x hx => x.recalibrated_settle.admissible (hc x hx)
    rw [← fixedTotal_left hleft] at hle hfull
    exact allocate_filled (List.forall_mem_map.2 hadmissible) hle hfull
  rw [recalibrate, allocate_filled (List.forall_mem_map.2 hc) hle hfull, maxRecalibrationPasses]
  dsimp only
  rcases recalibrationPasses_succ (shares_fixedAwards aims) 99 with ⟨hnone, hends⟩ | hgoes
  · have hsame : aims.map Aim.settle = aims :=
      (List.map_congr_left fun x hx => Aim.adjust_of_none (hnone x hx)).trans (List.map_id' _)
    rw [hends, hsame]
  · rw [← fixedAwards_settle] at hgoes ⊢
    rw [hgoes _ hsettled]
    refine recalibrationPasses_settled 99 (List.forall_mem_map.2 fun x _ => x.settle_settle) ?_
    exact hsettled

end Recalibration

end NestedLogit
