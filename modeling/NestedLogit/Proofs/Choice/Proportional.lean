import NestedLogit.Proofs.Choice.Unlimited
import NestedLogit.Proofs.Choice.Unmet

/-!
# Shares in proportion to weights

Contenders who are neither limited nor free get shares of the market in proportion to their weights:
to their logit weights if somebody has one, and to equal weights otherwise.

## Main definitions

- `Contender.Ordinary` — contenders with a positive price and without limits
- `Contender.pull` — the logit weight of an ordinary contender

## Main statements

- `shareOpenMarket_proportional` — shares in proportion to any weights
- `allocate_proportional` — an allocation by logit weights
- `allocate_equal` — an allocation among contenders of whom nobody has a weight
-/

namespace NestedLogit

variable {α : Type} [ExactQuantity α]

/-- A contender that any share of the market could go to, at a positive price. -/
structure Contender.Ordinary (c : Contender α) : Prop extends c.Unlimited where
  price_pos : 0 < c.price
  price_finite : Quantity.isFinite c.price = true
  weight_nonneg : 0 ≤ c.shareWeight

/-- The share weight times the price raised to the logit exponent. -/
def Contender.pull (c : Contender α) : α :=
  c.shareWeight * Quantity.pow c.price c.logitExponent

namespace Contender.Ordinary

variable {c : Contender α}

theorem pow_pos (h : c.Ordinary) : 0 < Quantity.pow c.price c.logitExponent :=
  ExactQuantity.pow_positive c.logitExponent h.price_pos

theorem pull_nonneg (h : c.Ordinary) : 0 ≤ c.pull :=
  mul_nonneg h.weight_nonneg h.pow_pos.le

theorem pull_pos_iff (h : c.Ordinary) : 0 < c.pull ↔ 0 < c.shareWeight :=
  mul_pos_iff_of_pos_right h.pow_pos

theorem pricedWeight_eq (h : c.Ordinary) (hfinite : Quantity.isFinite c.pull = true) :
    c.pricedWeight = if 0 < c.pull then some c.pull else none := by
  by_cases hpos : 0 < c.shareWeight
  · rw [if_pos (h.pull_pos_iff.2 hpos)]
    exact pricedWeight_of_pos h.no_fixed hpos h.price_pos h.price_finite hfinite
  · rw [if_neg (mt h.pull_pos_iff.1 hpos)]
    have hout : ¬c.TakesPart := fun htakes => hpos htakes.1
    simp [pricedWeight, weight_of_not_takesPart hout]

theorem freeWeight_eq (h : c.Ordinary) (hfinite : Quantity.isFinite c.pull = true) :
    c.freeWeight = none := by
  by_cases hpos : 0 < c.pull
  · cases hfree : c.freeWeight with
    | none => rfl
    | some w =>
      have hpriced := weighing_logit.priced_of_free c w hfree
      rw [h.pricedWeight_eq hfinite, if_pos hpos] at hpriced
      cases hpriced
  · have hout : ¬c.TakesPart := fun htakes => hpos (h.pull_pos_iff.2 htakes.1)
    simp [freeWeight, weight_of_not_takesPart hout]

end Contender.Ordinary

section Claims

variable {pool : α} {claims : List (Claim α)}

/-- The first pass over claims that could take a pool alone is the last one. -/
theorem distribute_proportional (hpool : 0 ≤ pool)
    (hw : ∀ c ∈ claims, ∀ w, c.weight = some w → 0 ≤ w) (hl : ∀ c ∈ claims, pool ≤ c.limit)
    (htotal : 0 < openTotal (claims.map Holding.start)) :
    distribute pool claims = .ok ⟨(claims.map Holding.start).map
      (Holding.pass pool (openTotal (claims.map Holding.start))), 0⟩ := by
  have hfits := List.any_eq_false.2 (no_overflows_of_ample hpool hw hl)
  rw [distribute, maxLimitPasses, passes]
  dsimp only
  rw [openPool_start hpool, hfits, if_neg (not_le.2 htotal), if_neg Bool.false_ne_true]

end Claims

section Market

variable {free priced : Contender α → Option α} {cs : List (Contender α)}

/-- The sum of the weights of contenders, where a missing weight counts as zero. -/
def totalWeight (weight : Contender α → Option α) (cs : List (Contender α)) : α :=
  (cs.map fun c => (weight c).getD 0).sum

theorem openTotal_claims (weight : Contender α → Option α) (cs : List (Contender α)) :
    openTotal ((cs.map fun c => c.claim (weight c)).map Holding.start) = totalWeight weight cs := by
  rw [openTotal, Quantity.total_eq_sum, sum_filterMap, List.map_map, List.map_map]
  rfl

/-- What a contender gets who is not free: its part of the market, or nothing without a weight. -/
theorem Contender.share_award_pass {c : Contender α} {weight : Option α} {total : α}
    (hfixed : c.fixedShare = none) (hlimit : portion 1 total (weight.getD 0) ≤ c.capacityLimit)
    (htotal : 0 < total) :
    (c.award (.start (c.claim none)) ((Holding.start (c.claim weight)).pass 1 total)).share
      = weight.getD 0 / total := by
  cases weight with
  | none => simp [award, Holding.start, claim, Holding.pass, Holding.openWeight, hfixed]
  | some w =>
    have hfits : (Holding.start (c.claim (some w))).overflows 1 total = false :=
      decide_eq_false (not_lt.2 hlimit)
    rw [Holding.pass_of_fits rfl hfits]
    simp [award, Holding.start, claim, portion, htotal]

/-- If nobody is free, the open part of a market without limits goes out in proportion to the
weights. -/
theorem shareOpenMarket_proportional (hpos : ∀ c w, priced c = some w → 0 < w)
    (hfree : ∀ c ∈ cs, free c = none) (hc : ∀ c ∈ cs, c.Unlimited)
    (htotal : 0 < totalWeight priced cs) :
    ∃ awards, shareOpenMarket cs free priced = .ok awards ∧
      awards.map Award.share = cs.map fun c => (priced c).getD 0 / totalWeight priced cs := by
  have hopen := openMarket_unlimited hc
  have hfirst : distribute (openMarket cs) (cs.map fun c => c.claim (free c))
      = .ok ⟨(cs.map fun c => c.claim (free c)).map Holding.start, openMarket cs⟩ :=
    distribute_idle (openMarket_nonneg cs) (List.forall_mem_map.2 hfree)
  have hclaims := (sound_claims hpos fun c hmem => (hc c hmem).admissible).1
  have hlimits : ∀ x ∈ cs.map fun c => c.claim (priced c), (1 : α) ≤ x.limit :=
    List.forall_mem_map.2 fun c hmem => (hc c hmem).limit_eq.ge
  have hshared := distribute_proportional zero_le_one hclaims hlimits
    (by rwa [openTotal_claims])
  rw [openTotal_claims] at hshared
  have hsecond : shareLeftover (openMarket cs) (cs.map fun c => c.claim (priced c))
      = .ok (((cs.map fun c => c.claim (priced c)).map Holding.start).map
          (Holding.pass 1 (totalWeight priced cs))) := by
    rw [hopen, shareLeftover, if_pos Quantity.shareTolerance_lt_one, limitShares, hshared]
    exact if_pos Quantity.shareTolerance_pos.le
  refine ⟨_, mapError_eq_ok.2 (bind_eq_ok.2 ⟨_, hfirst, bind_eq_ok.2 ⟨_, hsecond, rfl⟩⟩), ?_⟩
  rw [List.map_map, List.map_map, List.map_map, List.zip_map', List.zipWith_map_right,
    List.zipWith_self, List.map_map]
  apply List.map_congr_left
  intro c hmem
  have hpart : (priced c).getD 0 ≤ totalWeight priced cs := by
    refine List.single_le_sum (List.forall_mem_map.2 fun c _ => ?_) _
      (List.mem_map_of_mem (f := fun c => (priced c).getD 0) hmem)
    cases hw : priced c with
    | none => exact le_rfl
    | some w => exact (hpos c w hw).le
  have hlimit : portion 1 (totalWeight priced cs) ((priced c).getD 0) ≤ c.capacityLimit :=
    (portion_le_pool zero_le_one hpart).trans (hc c hmem).limit_eq.ge
  have haward := Contender.share_award_pass (hc c hmem).no_fixed hlimit htotal
  simpa [hfree c hmem] using haward

theorem checkContenders_unlimited (hc : ∀ c ∈ cs, c.Unlimited) : checkContenders cs = .ok () :=
  checkContenders_eq_ok_iff.2
    ⟨fun c hmem => (hc c hmem).admissible, fixedTotal_fits (fixedTotal_unlimited hc)⟩

/-- The sum of the logit weights of ordinary contenders. -/
def totalPull (cs : List (Contender α)) : α :=
  (cs.map Contender.pull).sum

theorem totalPull_pos_iff (hc : ∀ c ∈ cs, c.Ordinary) :
    0 < totalPull cs ↔ ∃ c ∈ cs, 0 < c.shareWeight := by
  have hnonneg : ∀ x ∈ cs.map Contender.pull, 0 ≤ x :=
    List.forall_mem_map.2 fun c hmem => (hc c hmem).pull_nonneg
  constructor
  · intro hpos
    by_contra hnone
    push Not at hnone
    have hzero : totalPull cs = 0 := by
      refine List.sum_eq_zero (List.forall_mem_map.2 fun c hmem => ?_)
      have hweight := le_antisymm (hnone c hmem) (hc c hmem).weight_nonneg
      rw [Contender.pull, hweight, zero_mul]
    exact hpos.ne' hzero
  · rintro ⟨c, hmem, hweight⟩
    have hle := List.single_le_sum hnonneg _ (List.mem_map_of_mem (f := Contender.pull) hmem)
    exact ((hc c hmem).pull_pos_iff.2 hweight).trans_le hle

theorem totalWeight_pricedWeight (hfinite : ∀ a : α, Quantity.isFinite a = true)
    (hc : ∀ c ∈ cs, c.Ordinary) : totalWeight Contender.pricedWeight cs = totalPull cs := by
  refine congrArg List.sum (List.map_congr_left fun c hmem => ?_)
  rw [(hc c hmem).pricedWeight_eq (hfinite _)]
  split
  · rfl
  · next hzero => exact (le_antisymm (not_lt.1 hzero) (hc c hmem).pull_nonneg).symm

/-- Ordinary contenders share a market in proportion to their logit weights, if somebody has
one. -/
theorem allocate_proportional (hfinite : ∀ a : α, Quantity.isFinite a = true)
    (hc : ∀ c ∈ cs, c.Ordinary) (hpos : 0 < totalPull cs) :
    ∃ a, allocate cs = .ok a ∧ a.shares = cs.map fun c => c.pull / totalPull cs := by
  have hunlimited : ∀ c ∈ cs, c.Unlimited := fun c hmem => (hc c hmem).toUnlimited
  have htotal := totalWeight_pricedWeight hfinite hc
  obtain ⟨c, hmem, hweight⟩ := (totalPull_pos_iff hc).1 hpos
  have heligible : c.isEligible = true := by
    rw [Contender.isEligible_iff]
    exact ⟨(hc c hmem).no_fixed, hweight, (hc c hmem).price_finite, .inl (hc c hmem).price_pos⟩
  have hfits : ¬needsFallback cs = true := by
    rw [needsFallback_iff]
    rintro ⟨-, hnone⟩
    exact List.any_eq_false.1 hnone c hmem heligible
  obtain ⟨awards, hshared, hshares⟩ := shareOpenMarket_proportional weighing_logit.priced_pos
    (fun c hmem => (hc c hmem).freeWeight_eq (hfinite _)) hunlimited (htotal ▸ hpos)
  refine ⟨⟨awards, none⟩, ?_, ?_⟩
  · rw [allocate, if_neg (by simpa using List.ne_nil_of_mem hmem),
      checkContenders_unlimited hunlimited]
    change allocateChecked cs = _
    rw [allocateChecked, if_neg hfits, hshared]
    rfl
  · refine hshares.trans (List.map_congr_left fun c hmem => ?_)
    rw [htotal, (hc c hmem).pricedWeight_eq (hfinite _)]
    split
    · rfl
    · next hzero => rw [le_antisymm (not_lt.1 hzero) (hc c hmem).pull_nonneg, Option.getD_none]

/-- Contenders of whom nobody has a weight share a market equally. -/
theorem allocate_equal (hne : cs ≠ []) (hc : ∀ c ∈ cs, c.Unlimited)
    (hzero : ∀ c ∈ cs, c.shareWeight = 0) :
    ∃ a, allocate cs = .ok a ∧ a.shares = cs.map fun _ => 1 / (cs.length : α) := by
  have hneeded : needsFallback cs = true := by
    rw [needsFallback_iff, openMarket_unlimited hc, List.any_eq_false]
    refine ⟨Quantity.shareTolerance_lt_one, fun c hmem heligible => ?_⟩
    exact (Contender.isEligible_iff.1 heligible).2.1.ne' (hzero c hmem)
  have hopen : ¬(cs.all fun c => c.fixedShare.isSome) = true := by
    obtain ⟨c, hmem⟩ := List.exists_mem_of_ne_nil cs hne
    intro hall
    have hfixed := List.all_eq_true.1 hall c hmem
    simp [(hc c hmem).no_fixed] at hfixed
  have hweight : ∀ c ∈ cs, (Contender.equalWeight c).getD 0 = 1 := by
    intro c hmem
    simp [Contender.equalWeight, (hc c hmem).no_fixed]
  have htotal : totalWeight Contender.equalWeight cs = (cs.length : α) := by
    rw [totalWeight, List.map_congr_left hweight]
    simp
  obtain ⟨awards, hshared, hshares⟩ := shareOpenMarket_proportional
    weighing_equal.priced_pos (fun c _ => (rfl : (fun _ => none) c = none)) hc
    (by rw [htotal]; exact Nat.cast_pos.2 (List.length_pos_iff.2 hne))
  refine ⟨⟨awards, some .equalSplit⟩, ?_, ?_⟩
  · rw [allocate, if_neg (by simpa using hne), checkContenders_unlimited hc]
    change allocateChecked cs = _
    rw [allocateChecked, if_pos hneeded, allocateByFallback,
      if_neg (by rw [fixedTotal_unlimited hc]; exact lt_irrefl _), if_neg hopen, hshared]
    rfl
  · refine hshares.trans (List.map_congr_left fun c hmem => ?_)
    rw [htotal, hweight c hmem]

end Market

end NestedLogit
