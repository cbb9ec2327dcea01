import NestedLogit.Proofs.Choice.Feasibility
import NestedLogit.Proofs.Pointwise

/-!
# Contenders without limits

Without capacity limits and fixed shares nothing stands in the way of sharing out a market: nobody
can be limited, so that the first pass is the last one, and somebody always takes part, because the
market is split equally if nobody has a weight. The allocation of such a market never fails, and its
shares add up to one exactly. The same holds of recalibration, which changes nothing but weights.

## Main definitions

- `Contender.Unlimited` — contenders without a capacity limit or a fixed share
- `MakeWhole` — shares that make up a whole

## Main statements

- `allocate_unlimited` — unlimited contenders share out the whole market
- `recalibrate_unlimited` — so they do with recalibrated weights
-/

namespace NestedLogit

variable {α : Type} [ExactQuantity α]

/-- Shares of a whole: none is negative, and they add up to one unless there are none. -/
structure MakeWhole (shares : List α) : Prop where
  nonneg : ∀ x ∈ shares, 0 ≤ x
  sum_eq : shares ≠ [] → shares.sum = 1

/-- Whether a contender has neither a capacity limit nor a fixed share. -/
structure Contender.Unlimited (c : Contender α) : Prop where
  limit_eq : c.capacityLimit = 1
  no_fixed : c.fixedShare = none

theorem Contender.Unlimited.admissible {c : Contender α} (h : c.Unlimited) : c.Admissible where
  limit_nonneg := h.limit_eq ▸ zero_le_one
  limit_le_one := h.limit_eq.le
  fixed_nonneg := by simp [h.no_fixed]
  fixed_le_one := by simp [h.no_fixed]
  fixed_le_limit := by simp [h.no_fixed]

section Claims

variable {pool : α} {claims : List (Claim α)}

theorem portion_le_pool {total w : α} (hpool : 0 ≤ pool) (hle : w ≤ total) :
    portion pool total w ≤ pool := by
  unfold portion
  split
  · next ht =>
    rw [div_le_iff₀ ht]
    exact mul_le_mul_of_nonneg_left hle hpool
  · exact hpool

/-- No claim that could take a pool alone is limited by the first pass. -/
theorem no_overflows_of_ample (hpool : 0 ≤ pool)
    (hw : ∀ c ∈ claims, ∀ w, c.weight = some w → 0 ≤ w) (hl : ∀ c ∈ claims, pool ≤ c.limit) :
    ∀ h ∈ claims.map Holding.start,
      ¬h.overflows pool (openTotal (claims.map Holding.start)) = true := by
  have hsound := sound_map_start hw fun c hc => hpool.trans (hl c hc)
  intro h hmem ho
  obtain ⟨w, hopen, hlt⟩ := Holding.limit_lt_of_overflows ho
  have hle := portion_le_pool hpool (openWeight_le_openTotal hsound hmem hopen)
  obtain ⟨c, hc, rfl⟩ := List.mem_map.1 hmem
  exact absurd (hlt.trans_le hle) (not_lt.2 (hl c hc))

/-- A pool that each claim could take alone is shared out in a single pass. -/
theorem distribute_ample (hpool : 0 ≤ pool) (hw : ∀ c ∈ claims, ∀ w, c.weight = some w → 0 ≤ w)
    (hl : ∀ c ∈ claims, pool ≤ c.limit) : ∃ d, distribute pool claims = .ok d := by
  have hfits := List.any_eq_false.2 (no_overflows_of_ample hpool hw hl)
  rw [distribute, maxLimitPasses, passes]
  dsimp only
  rw [openPool_start hpool, hfits]
  split <;> exact ⟨_, rfl⟩

/-- A claim that competes adds its limit to the capacity. -/
theorem limit_le_totalCapacity (hl : ∀ c ∈ claims, 0 ≤ c.limit) {c : Claim α} (hc : c ∈ claims)
    {w : α} (hw : c.weight = some w) (hpos : 0 < w) : c.limit ≤ totalCapacity claims := by
  have hnonneg : ∀ x ∈ claims.map Claim.capacity, 0 ≤ x :=
    List.forall_mem_map.2 fun c hc => Claim.capacity_nonneg (hl c hc)
  have hcapacity : c.capacity = c.limit := by simp [Claim.capacity, hw, hpos]
  exact hcapacity ▸ List.single_le_sum hnonneg _ (List.mem_map_of_mem hc)

end Claims

section Market

variable {free priced : Contender α → Option α} {cs : List (Contender α)}

theorem fixedTotal_unlimited (hc : ∀ c ∈ cs, c.Unlimited) : fixedTotal cs = 0 :=
  fixedTotal_eq_zero fun c hmem => (hc c hmem).no_fixed

theorem openMarket_unlimited (hc : ∀ c ∈ cs, c.Unlimited) : openMarket cs = 1 :=
  openMarket_eq_one (fixedTotal_unlimited hc)

/-- A contender with a weight can take the whole market. -/
theorem one_le_totalCapacity {weight : Contender α → Option α}
    (hw : ∀ c w, weight c = some w → 0 < w) (hc : ∀ c ∈ cs, c.Unlimited) {c : Contender α}
    (hmem : c ∈ cs) {w : α} (hweight : weight c = some w) :
    1 ≤ totalCapacity (cs.map fun c => c.claim (weight c)) := by
  have hlimits := (sound_claims hw fun c hmem => (hc c hmem).admissible).2
  have hclaim := List.mem_map_of_mem (f := fun c => c.claim (weight c)) hmem
  exact (hc c hmem).limit_eq.ge.trans
    (limit_le_totalCapacity hlimits hclaim hweight (hw c w hweight))

/-- Nothing is left over once somebody has a weight. -/
theorem leftover_unlimited (hw : Weighing free priced) (hc : ∀ c ∈ cs, c.Unlimited)
    (hsome : ∃ c ∈ cs, c.hasWeight free priced = true) :
    leftover 1 (cs.map fun c => c.claim (free c)) (cs.map fun c => c.claim (priced c)) = 0 := by
  unfold leftover
  dsimp only
  by_cases hfree : ∃ c ∈ cs, (free c).isSome = true
  · obtain ⟨c, hmem, hisSome⟩ := hfree
    obtain ⟨w, hweight⟩ := Option.isSome_iff_exists.1 hisSome
    have hcapacity := one_le_totalCapacity hw.free_pos hc hmem hweight
    rw [max_eq_right (sub_nonpos.2 hcapacity), if_neg (not_lt.2 Quantity.shareTolerance_pos.le)]
  · -- Nobody is free, so that the priced contenders share the whole market.
    have hnone : ∀ c ∈ cs, free c = none := by simpa using hfree
    have hidle : totalCapacity (cs.map fun c => c.claim (free c)) = 0 := by
      rw [totalCapacity, List.map_map]
      refine List.sum_eq_zero (List.forall_mem_map.2 fun c hmem => ?_)
      simp [Claim.capacity, Contender.claim, hnone c hmem]
    obtain ⟨c, hmem, hhas⟩ := hsome
    obtain ⟨w, hweight⟩ : ∃ w, priced c = some w :=
      Option.isSome_iff_exists.1 (by simpa [Contender.hasWeight, hnone c hmem] using hhas)
    have hcapacity := one_le_totalCapacity hw.priced_pos hc hmem hweight
    rw [hidle, sub_zero, max_eq_left zero_le_one, if_pos Quantity.shareTolerance_lt_one,
      max_eq_right (sub_nonpos.2 hcapacity)]

theorem openMarket_le_one (hc : ∀ c ∈ cs, c.Admissible) : openMarket cs ≤ 1 := by
  rw [openMarket, Quantity.larger_eq_max]
  exact max_le (sub_le_self _ (fixedTotal_nonneg hc)) zero_le_one

/-- The passes between contenders who could each take the whole market come to an end. -/
theorem shareOpenMarket_converges (hw : Weighing free priced) (hc : ∀ c ∈ cs, c.Admissible)
    (hl : ∀ c ∈ cs, c.capacityLimit = 1) :
    shareOpenMarket cs free priced ≠ .error (.limits .notConverged) := by
  intro h
  have hlimits : ∀ (weight : Contender α → Option α) {pool : α}, pool ≤ 1 →
      ∀ x ∈ cs.map fun c => c.claim (weight c), pool ≤ x.limit := fun weight pool hle =>
    List.forall_mem_map.2 fun c hmem => hle.trans_eq (hl c hmem).symm
  obtain ⟨hfw, hfl⟩ := sound_claims hw.free_pos hc
  obtain ⟨hpw, -⟩ := sound_claims hw.priced_pos hc
  have hpool := openMarket_nonneg cs
  have hpool1 := openMarket_le_one hc
  obtain ⟨e, he, hcause⟩ := mapError_eq_error.1 h
  obtain rfl : e = .notConverged := AllocationError.limits.inj hcause
  -- Neither distribution can run into a limit, as no pool exceeds the whole.
  rcases bind_eq_error.1 he with hfirst | ⟨first, hfirst, he⟩
  · obtain ⟨d, hd⟩ := distribute_ample hpool hfw (hlimits free hpool1)
    cases hd.symm.trans hfirst
  · have haccounts := distribute_accounts hpool hfw hfl hfirst
    have hrest := haccounts.unallocated_nonneg
    have hshares : 0 ≤ (first.holdings.map Holding.share).sum :=
      List.sum_nonneg (List.forall_mem_map.2 fun x hx => (haccounts.sound x hx).share_nonneg)
    have hrest1 : first.unallocated ≤ 1 := by
      have hsum := haccounts.sum_eq
      linarith
    obtain ⟨d, hd⟩ := distribute_ample hrest hpw (hlimits priced hrest1)
    rcases bind_eq_error.1 he with hsecond | ⟨_, _, he⟩
    · unfold shareLeftover limitShares at hsecond
      rw [hd] at hsecond
      split at hsecond
      · change (if _ then _ else _) = _ at hsecond
        split at hsecond <;> cases hsecond
      · cases hsecond
    · cases he

/-- Contenders who could each take the whole market share it out if somebody has a weight, or if
nearly nothing is open. -/
theorem shareOpenMarket_ample (hw : Weighing free priced) (hc : ∀ c ∈ cs, c.Admissible)
    (hl : ∀ c ∈ cs, c.capacityLimit = 1)
    (hsome : ¬Quantity.shareTolerance < openMarket cs ∨
      ∃ c ∈ cs, c.hasWeight free priced = true) :
    ∃ awards, shareOpenMarket cs free priced = .ok awards := by
  rcases shareOpenMarket_cases hw hc with ⟨awards, h, -⟩ | ⟨e, -, hshort⟩ | ⟨h, -⟩
  · exact ⟨awards, h⟩
  · have hnonneg : ∀ x ∈ (cs.filter (Contender.hasWeight free priced)).map
        Contender.capacityLimit, 0 ≤ x :=
      List.forall_mem_map.2 fun x hx => (hc x (List.mem_filter.1 hx).1).limit_nonneg
    rcases hsome with hclosed | ⟨c, hmem, hhas⟩
    · have hsum := List.sum_nonneg hnonneg
      exact absurd (sub_pos.1 (hsum.trans_lt hshort)) hclosed
    · have hone : 1 ≤ ((cs.filter (Contender.hasWeight free priced)).map
          Contender.capacityLimit).sum :=
        (hl c hmem).ge.trans (List.single_le_sum hnonneg _
          (List.mem_map_of_mem (List.mem_filter.2 ⟨hmem, hhas⟩)))
      have htol : (0 : α) < Quantity.shareTolerance := Quantity.shareTolerance_pos
      have hopen := openMarket_le_one hc
      linarith
  · exact absurd h (shareOpenMarket_converges hw hc hl)

/-- Contenders who could each take the whole market share it out, fixed shares or not, unless all
they have are fixed shares of nothing. -/
theorem allocate_ample (hc : ∀ c ∈ cs, c.Admissible) (hl : ∀ c ∈ cs, c.capacityLimit = 1)
    (hle : fixedTotal cs ≤ 1 + Quantity.shareTolerance)
    (hsome : (∃ c ∈ cs, c.fixedShare = none) ∨ 0 < fixedTotal cs) : ∃ a, allocate cs = .ok a := by
  have hchecked : ∃ a, allocateChecked cs = .ok a := by
    unfold allocateChecked allocateByFallback
    split
    · split
      · exact ⟨_, rfl⟩
      · next hzero =>
        obtain ⟨c, hmem, hfixed⟩ := hsome.resolve_right hzero
        have hopen : ¬(cs.all fun c => c.fixedShare.isSome) = true := by
          intro hall
          have hisSome := List.all_eq_true.1 hall c hmem
          simp [hfixed] at hisSome
        have hequal : c.hasWeight (fun _ => none) Contender.equalWeight = true := by
          simp [Contender.hasWeight, Contender.equalWeight, hfixed]
        obtain ⟨awards, h⟩ := shareOpenMarket_ample weighing_equal hc hl (.inr ⟨c, hmem, hequal⟩)
        rw [if_neg hopen, h]
        exact ⟨_, rfl⟩
    · next hfits =>
      have hsome' : ¬Quantity.shareTolerance < openMarket cs ∨ ∃ c ∈ cs, c.isEligible = true := by
        rw [needsFallback_iff, not_and_or, Bool.not_eq_false] at hfits
        exact hfits.imp_right List.any_eq_true.1
      obtain ⟨awards, h⟩ := shareOpenMarket_ample weighing_logit hc hl hsome'
      rw [h]
      exact ⟨_, rfl⟩
  unfold allocate
  split
  · exact ⟨_, rfl⟩
  · rwa [checkContenders_eq_ok_iff.2 ⟨hc, hle⟩]

/-- Unlimited contenders of whom somebody has a weight share out the whole market. -/
theorem shareOpenMarket_unlimited (hw : Weighing free priced) (hc : ∀ c ∈ cs, c.Unlimited)
    (hsome : ∃ c ∈ cs, c.hasWeight free priced = true) :
    ∃ awards, shareOpenMarket cs free priced = .ok awards ∧
      (awards.map Award.share).sum = 1 := by
  have hadmissible : ∀ c ∈ cs, c.Admissible := fun c hmem => (hc c hmem).admissible
  obtain ⟨awards, h⟩ := shareOpenMarket_ample hw hadmissible
    (fun c hmem => (hc c hmem).limit_eq) (.inr hsome)
  refine ⟨awards, h, ?_⟩
  obtain ⟨hs, rest, hholds, rfl, hsum, -, -, hrest⟩ := shareOpenMarket_eq_ok hw hadmissible h
  rw [openMarket_unlimited hc] at hsum hrest
  rw [leftover_unlimited hw hc hsome] at hrest
  rw [sum_awardAll hw hholds, ← fixedTotal_eq_sum, fixedTotal_unlimited hc, zero_add]
  rwa [hrest, add_zero] at hsum

/-- Where the logit weights are all zero, the market is split equally. -/
theorem allocateByFallback_unlimited (hne : cs ≠ []) (hc : ∀ c ∈ cs, c.Unlimited) :
    ∃ a, allocateByFallback cs = .ok a ∧ a.shares.sum = 1 := by
  obtain ⟨c, hmem⟩ := List.exists_mem_of_ne_nil cs hne
  have hzero : ¬0 < fixedTotal cs := by
    rw [fixedTotal_unlimited hc]
    exact lt_irrefl _
  have hopen : ¬(cs.all fun c => c.fixedShare.isSome) = true := by
    intro hall
    have hfixed := List.all_eq_true.1 hall c hmem
    simp [(hc c hmem).no_fixed] at hfixed
  have hequal : c.hasWeight (fun _ => none) Contender.equalWeight = true := by
    simp [Contender.hasWeight, Contender.equalWeight, (hc c hmem).no_fixed]
  obtain ⟨awards, h, hsum⟩ := shareOpenMarket_unlimited weighing_equal hc ⟨c, hmem, hequal⟩
  rw [allocateByFallback, if_neg hzero, if_neg hopen, h]
  exact ⟨_, rfl, hsum⟩

theorem allocateChecked_unlimited (hne : cs ≠ []) (hc : ∀ c ∈ cs, c.Unlimited) :
    ∃ a, allocateChecked cs = .ok a ∧ a.shares.sum = 1 := by
  unfold allocateChecked
  split
  · exact allocateByFallback_unlimited hne hc
  · next hfits =>
    have hsome : cs.any Contender.isEligible = true := by
      rw [needsFallback_iff, openMarket_unlimited hc] at hfits
      simpa [Quantity.shareTolerance_lt_one] using hfits
    obtain ⟨awards, h, hsum⟩ :=
      shareOpenMarket_unlimited weighing_logit hc (List.any_eq_true.1 hsome)
    rw [h]
    exact ⟨_, rfl, hsum⟩

/-- Unlimited contenders share out the whole market, and nothing stands in the way of it. -/
theorem allocate_unlimited (hc : ∀ c ∈ cs, c.Unlimited) :
    ∃ a, allocate cs = .ok a ∧ MakeWhole a.shares := by
  by_cases hne : cs = []
  · subst hne
    exact ⟨⟨[], none⟩, rfl, by simp [Allocation.shares], fun h => absurd rfl h⟩
  · have hcheck : checkContenders cs = .ok () := checkContenders_eq_ok_iff.2
      ⟨fun c hmem => (hc c hmem).admissible, fixedTotal_fits (fixedTotal_unlimited hc)⟩
    obtain ⟨a, hchecked, hsum⟩ := allocateChecked_unlimited hne hc
    have ha : allocate cs = .ok a := by
      rw [allocate, if_neg (by simpa using hne), hcheck]
      exact hchecked
    have hnonneg := forall_mem_of_forall₂ (forall₂_shares_allocate hne ha) fun _ _ _ hx => hx.1
    exact ⟨a, ha, hnonneg, fun _ => hsum⟩

end Market

theorem Aim.unlimited_adjust (x : Aim α) (share : α) (h : x.contender.Unlimited) :
    (x.adjust share).contender.Unlimited := by
  unfold Aim.adjust
  split
  · exact ⟨h.limit_eq, h.no_fixed⟩
  · exact h

/-- Recalibration of unlimited contenders comes to a result, with shares of the whole market and a
contender for each of them. -/
theorem recalibrate_unlimited {aims : List (Aim α)} (h : ∀ x ∈ aims, x.contender.Unlimited) :
    ∃ b, (recalibrate aims).outcome = .ok b ∧ MakeWhole b.shares ∧
      (recalibrate aims).contenders.length = aims.length ∧ b.shares.length = aims.length := by
  -- An adjusted contender is still unlimited, so that every allocation comes to a result.
  obtain ⟨left, hleft, hrecalibrate⟩ := recalibrate_adjusted
    (R := fun x y => x.contender.Unlimited → y.contender.Unlimited) (fun _ hx => hx)
    (fun hxy hyz hx => hyz (hxy hx)) Aim.unlimited_adjust aims
  have hunlimited : ∀ y ∈ left, y.contender.Unlimited :=
    forall_mem_of_forall₂ hleft fun x hx y hxy => hxy (h x hx)
  obtain ⟨b, hb, hwhole⟩ := allocate_unlimited (List.forall_mem_map.2 hunlimited)
  have hlength : left.length = aims.length := hleft.length_eq.symm
  rw [hrecalibrate]
  refine ⟨b, hb, hwhole, ?_, ?_⟩
  · rw [List.length_map, hlength]
  · rw [allocate_length_shares hb, List.length_map, hlength]

end NestedLogit
