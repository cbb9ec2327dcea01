import NestedLogit.Proofs.Choice.Symmetry

/-!
# Shares as a function of two levels

What everybody gets of an open market follows from two numbers, the level at which the free claims
are served and the level at which the priced ones are, and the two numbers follow from what is taken
in all. Two markets that differ in one contender can thus be compared by their levels, without a
look at the passes: what all others get together rises and falls with what each of them gets.

## Main definitions

- `Claim.atLevel`, `totalAt` — what a claim gets at a level, and what claims get together
- `Levels` — the two levels of an open market
- `Contender.shareAt` — what a contender gets at these levels

## Main statements

- `atLevel_le_of_totalAt_le` — together and one by one claims get less at the same levels
- `atLevel_compare` — a claim that gains weight gains, and all others lose
- `shareOpenMarket_levels` — an open market is shared out at two levels
-/

namespace NestedLogit

variable {α : Type} [ExactQuantity α] {level level' : α}

namespace Claim

/-- What a claim gets at a level: what the level gives for the weight, or the limit if that is
less. -/
def atLevel (level : α) (c : Claim α) : α :=
  min c.limit (level * c.weight.getD 0)

/-- Neither the weight nor the limit is negative. -/
structure Regular (c : Claim α) : Prop where
  weight_nonneg : ∀ w, c.weight = some w → 0 ≤ w
  limit_nonneg : 0 ≤ c.limit

variable {c : Claim α}

theorem Regular.part_nonneg (hc : c.Regular) : 0 ≤ c.weight.getD 0 := by
  cases hw : c.weight with
  | none => exact le_rfl
  | some w => exact hc.weight_nonneg w hw

theorem atLevel_le_limit (level : α) (c : Claim α) : c.atLevel level ≤ c.limit :=
  min_le_left _ _

theorem atLevel_nonneg (hc : c.Regular) (hlevel : 0 ≤ level) : 0 ≤ c.atLevel level :=
  le_min hc.limit_nonneg (mul_nonneg hlevel hc.part_nonneg)

theorem atLevel_mono (hc : c.Regular) (hle : level ≤ level') :
    c.atLevel level ≤ c.atLevel level' :=
  min_le_min_left _ (mul_le_mul_of_nonneg_right hle hc.part_nonneg)

theorem atLevel_zero (hc : c.Regular) : c.atLevel 0 = 0 := by
  rw [atLevel, zero_mul, min_eq_right hc.limit_nonneg]

theorem atLevel_of_weightless (hc : c.Regular) (hw : c.weight = none) : c.atLevel level = 0 := by
  rw [atLevel, hw, Option.getD_none, mul_zero, min_eq_right hc.limit_nonneg]

theorem atLevel_le_capacity (hc : c.Regular) (level : α) : c.atLevel level ≤ c.capacity := by
  unfold capacity
  split
  · next w hw =>
    split
    · exact atLevel_le_limit level c
    · next hpos =>
      have hzero : w = 0 := le_antisymm (not_lt.1 hpos) (hc.weight_nonneg w hw)
      rw [atLevel, hw, Option.getD_some, hzero, mul_zero, min_eq_right hc.limit_nonneg]
  · next hw => exact (atLevel_of_weightless hc hw).le

/-- A high level fills a claim. -/
theorem exists_atLevel_eq_capacity (hc : c.Regular) :
    ∃ level, 0 ≤ level ∧ c.atLevel level = c.capacity := by
  by_cases hpos : 0 < c.weight.getD 0
  · refine ⟨c.limit / c.weight.getD 0, div_nonneg hc.limit_nonneg hpos.le, ?_⟩
    rw [atLevel, div_mul_cancel₀ _ hpos.ne', min_self, capacity]
    cases hw : c.weight with
    | none => simp [hw] at hpos
    | some w =>
      rw [hw, Option.getD_some] at hpos
      exact (if_pos hpos).symm
  · refine ⟨0, le_rfl, le_antisymm (atLevel_le_capacity hc 0) ?_⟩
    rw [atLevel_zero hc, capacity]
    cases hw : c.weight with
    | none => exact le_rfl
    | some w =>
      rw [hw, Option.getD_some] at hpos
      exact (if_neg hpos).le

end Claim

/-- What claims get together at a level. -/
def totalAt (level : α) (claims : List (Claim α)) : α :=
  (claims.map (Claim.atLevel level)).sum

@[simp] theorem totalAt_cons (level : α) (c : Claim α) (claims : List (Claim α)) :
    totalAt level (c :: claims) = c.atLevel level + totalAt level claims := by
  simp [totalAt]

@[simp] theorem totalCapacity_cons (c : Claim α) (claims : List (Claim α)) :
    totalCapacity (c :: claims) = c.capacity + totalCapacity claims := by
  simp [totalCapacity]

section Claims

variable {claims : List (Claim α)}

theorem totalAt_nonneg (hc : ∀ c ∈ claims, c.Regular) (hlevel : 0 ≤ level) :
    0 ≤ totalAt level claims :=
  List.sum_nonneg (List.forall_mem_map.2 fun c hmem => c.atLevel_nonneg (hc c hmem) hlevel)

theorem totalAt_le_totalCapacity (hc : ∀ c ∈ claims, c.Regular) (level : α) :
    totalAt level claims ≤ totalCapacity claims :=
  List.sum_le_sum fun c hmem => c.atLevel_le_capacity (hc c hmem) level

/-- Claims that get less together get less one by one. -/
theorem atLevel_le_of_totalAt_le (hc : ∀ c ∈ claims, c.Regular)
    (hle : totalAt level' claims ≤ totalAt level claims) :
    ∀ c ∈ claims, c.atLevel level' ≤ c.atLevel level := by
  intro c hmem
  by_cases hlevel : level' ≤ level
  · exact c.atLevel_mono (hc c hmem) hlevel
  · -- Nobody gets less at the higher level, so that nobody can get more.
    by_contra hmore
    have hmono : ∀ x ∈ claims, x.atLevel level ≤ x.atLevel level' :=
      fun x hx => x.atLevel_mono (hc x hx) (not_le.1 hlevel).le
    have hlt : totalAt level claims < totalAt level' claims :=
      List.sum_lt_sum _ _ hmono ⟨c, hmem, not_le.1 hmore⟩
    exact absurd hle (not_le.2 hlt)

/-- If a claim gains weight and no more is given out than before, it gains and all others lose. -/
theorem atLevel_compare (own own' : Claim α) (hown : own.Regular)
    (hc : ∀ c ∈ claims, c.Regular) (hlevel : 0 ≤ level') (hlimit : own.limit = own'.limit)
    (hweight : own.weight.getD 0 ≤ own'.weight.getD 0)
    (hsum : totalAt level (own :: claims) = totalAt level' (own' :: claims)) :
    own.atLevel level ≤ own'.atLevel level' ∧
      ∀ c ∈ claims, c.atLevel level' ≤ c.atLevel level := by
  rw [totalAt_cons, totalAt_cons] at hsum
  rcases le_total level level' with hup | hdown
  · have hgain : own.atLevel level ≤ own'.atLevel level' := by
      calc own.atLevel level ≤ own.atLevel level' := own.atLevel_mono hown hup
        _ ≤ own'.atLevel level' := by
          rw [Claim.atLevel, Claim.atLevel, hlimit]
          exact min_le_min_left _ (mul_le_mul_of_nonneg_left hweight hlevel)
    exact ⟨hgain, atLevel_le_of_totalAt_le hc (by linarith)⟩
  · have hlose : ∀ c ∈ claims, c.atLevel level' ≤ c.atLevel level :=
      fun c hmem => c.atLevel_mono (hc c hmem) hdown
    have htotal : totalAt level' claims ≤ totalAt level claims := List.sum_le_sum hlose
    exact ⟨by linarith, hlose⟩

/-- There is a level that fills all claims. -/
theorem exists_level_of_capacity (hc : ∀ c ∈ claims, c.Regular) :
    ∃ level, 0 ≤ level ∧ ∀ c ∈ claims, c.atLevel level = c.capacity := by
  induction claims with
  | nil => exact ⟨0, le_rfl, by simp⟩
  | cons c claims ih =>
    rw [List.forall_mem_cons] at hc
    obtain ⟨own, hown, hfull⟩ := c.exists_atLevel_eq_capacity hc.1
    obtain ⟨rest, -, hrest⟩ := ih hc.2
    refine ⟨max own rest, le_max_of_le_left hown, List.forall_mem_cons.2 ⟨?_, fun x hx => ?_⟩⟩
    · refine le_antisymm (c.atLevel_le_capacity hc.1 _) ?_
      exact hfull.ge.trans (c.atLevel_mono hc.1 (le_max_left own rest))
    · refine le_antisymm (x.atLevel_le_capacity (hc.2 x hx) _) ?_
      exact (hrest x hx).ge.trans (x.atLevel_mono (hc.2 x hx) (le_max_right own rest))

/-- A pool is shared out at one level, as far as the claims can take it. -/
theorem distribute_level {pool : α} {d : Distribution α} (hpool : 0 ≤ pool)
    (hc : ∀ c ∈ claims, c.Regular) (h : distribute pool claims = .ok d) :
    ∃ level, 0 ≤ level ∧ (∀ x ∈ d.holdings, x.share = x.toClaim.atLevel level) ∧
      totalAt level claims = min pool (totalCapacity claims) ∧
      d.unallocated = pool - totalAt level claims := by
  have hw : ∀ c ∈ claims, ∀ w, c.weight = some w → 0 ≤ w := fun c hmem => (hc c hmem).weight_nonneg
  have hl : ∀ c ∈ claims, 0 ≤ c.limit := fun c hmem => (hc c hmem).limit_nonneg
  have hd := distribute_accounts hpool hw hl h
  have hregular : ∀ x ∈ d.holdings, x.toClaim.Regular :=
    fun x hx => hc x.toClaim (hd.claims_eq ▸ List.mem_map_of_mem hx)
  have hlevel : ∃ level, 0 ≤ level ∧ ∀ x ∈ d.holdings, x.share = x.toClaim.atLevel level := by
    rcases distribute_atLevel hpool hw hl h with hlimited | ⟨-, level, hnonneg, hat⟩
    · obtain ⟨level, hnonneg, hfull⟩ := exists_level_of_capacity hc
      refine ⟨level, hnonneg, fun x hx => ?_⟩
      rw [hfull x.toClaim (hd.claims_eq ▸ List.mem_map_of_mem hx)]
      exact (hd.sound x hx).share_eq_capacity (hlimited x hx)
    · refine ⟨level, hnonneg, fun x hx => ?_⟩
      cases hweight : x.weight with
      | some w =>
        rw [(hat x hx).share_eq w hweight, Claim.atLevel, hweight]
        rfl
      | none =>
        rw [Claim.atLevel_of_weightless (hregular x hx) hweight]
        exact (hd.sound x hx).share_of_weightless hweight
  obtain ⟨level, hnonneg, hshares⟩ := hlevel
  have htotal : totalAt level claims + d.unallocated = pool := by
    rw [← hd.sum_eq, List.map_congr_left hshares, totalAt, ← hd.claims_eq, List.map_map]
    rfl
  refine ⟨level, hnonneg, hshares, ?_, by linarith⟩
  rw [distribute_unallocated hpool hw hl h] at htotal
  rcases le_total pool (totalCapacity claims) with hle | hle
  · rw [max_eq_right (sub_nonpos.2 hle)] at htotal
    rw [min_eq_left hle]
    linarith
  · rw [max_eq_left (sub_nonneg.2 hle)] at htotal
    rw [min_eq_right hle]
    linarith

/-- How much of a rest claims take that have a capacity: nothing, if it is nearly nothing. -/
def takenOf (rest capacity : α) : α :=
  if Quantity.shareTolerance < rest then min rest capacity else 0

theorem takenOf_le {rest : α} (hrest : 0 ≤ rest) (capacity : α) : takenOf rest capacity ≤ rest := by
  unfold takenOf
  split
  · exact min_le_left _ _
  · exact hrest

theorem shareLeftover_level {rest : α} {second : List (Holding α)} (hrest : 0 ≤ rest)
    (hc : ∀ c ∈ claims, c.Regular) (h : shareLeftover rest claims = .ok second) :
    ∃ level, 0 ≤ level ∧ (∀ x ∈ second, x.share = x.toClaim.atLevel level) ∧
      totalAt level claims = takenOf rest (totalCapacity claims) := by
  unfold shareLeftover at h
  split at h
  · next hlarge =>
    obtain ⟨d, hd, h⟩ := bind_eq_ok.1 h
    split at h
    · cases h
      obtain ⟨level, hlevel, hshares, htotal, -⟩ := distribute_level hrest hc hd
      exact ⟨level, hlevel, hshares, by rw [takenOf, if_pos hlarge, htotal]⟩
    · cases h
  · next hsmall =>
    cases h
    have hzero : ∀ c ∈ claims, c.atLevel 0 = 0 := fun c hmem => c.atLevel_zero (hc c hmem)
    refine ⟨0, le_rfl, List.forall_mem_map.2 fun c hmem => (hzero c hmem).symm, ?_⟩
    rw [takenOf, if_neg hsmall, totalAt, List.map_congr_left hzero]
    simp

end Claims

@[simp] theorem Contender.capacity_claim_none (c : Contender α) : (c.claim none).capacity = 0 := rfl

/-- What a contender gets of an open market at the level of the free claims and that of the priced
ones. -/
def Contender.shareAt (free priced : Contender α → Option α) (first second : α)
    (c : Contender α) : α :=
  c.fixedPart + ((c.claim (free c)).atLevel first + (c.claim (priced c)).atLevel second)

/-- The two levels of an open market: free claims take of it what they can, and priced claims what
these leave, unless that is nearly nothing. -/
structure Levels (free priced : Contender α → Option α) (cs : List (Contender α))
    (first second : α) : Prop where
  first_nonneg : 0 ≤ first
  second_nonneg : 0 ≤ second
  first_total : totalAt first (cs.map fun c => c.claim (free c))
    = min (openMarket cs) (totalCapacity (cs.map fun c => c.claim (free c)))
  second_total : totalAt second (cs.map fun c => c.claim (priced c))
    = takenOf (openMarket cs - totalAt first (cs.map fun c => c.claim (free c)))
        (totalCapacity (cs.map fun c => c.claim (priced c)))

section Market

variable {free priced : Contender α → Option α} {cs cs' : List (Contender α)}

theorem regular_claim {weight : Contender α → Option α} (hw : ∀ c w, weight c = some w → 0 < w)
    {c : Contender α} (hc : c.Admissible) : (c.claim (weight c)).Regular :=
  ⟨fun w h => (hw c w h).le, hc.limit_nonneg⟩

theorem regular_claims {weight : Contender α → Option α} (hw : ∀ c w, weight c = some w → 0 < w)
    (hc : ∀ c ∈ cs, c.Admissible) : ∀ x ∈ cs.map fun c => c.claim (weight c), x.Regular :=
  List.forall_mem_map.2 fun c hmem => regular_claim hw (hc c hmem)

theorem atLevel_claim_none {c : Contender α} (hc : c.Admissible) (level : α) :
    (c.claim none).atLevel level = 0 :=
  Claim.atLevel_of_weightless ⟨fun _ h => absurd h nofun, hc.limit_nonneg⟩ rfl

/-- The levels of a market do not depend on the order of the contenders. -/
theorem Levels.perm {first second : α} (h : cs.Perm cs') (hl : Levels free priced cs first second) :
    Levels free priced cs' first second := by
  obtain ⟨hfirst, hsecond, hfree, hpriced⟩ := hl
  have htotal : ∀ (weight : Contender α → Option α) (level : α),
      totalAt level (cs'.map fun c => c.claim (weight c))
        = totalAt level (cs.map fun c => c.claim (weight c)) :=
    fun weight level => ((h.symm.map _).map _).sum_eq
  have hcapacity : ∀ weight : Contender α → Option α,
      totalCapacity (cs'.map fun c => c.claim (weight c))
        = totalCapacity (cs.map fun c => c.claim (weight c)) :=
    fun weight => ((h.symm.map _).map _).sum_eq
  refine ⟨hfirst, hsecond, ?_, ?_⟩
  · rw [htotal, hcapacity, openMarket_perm h, hfree]
  · rw [htotal, htotal, hcapacity, openMarket_perm h, hpriced]

/-- An open market is shared out at two levels. -/
theorem shareOpenMarket_levels (hw : Weighing free priced) (hc : ∀ c ∈ cs, c.Admissible)
    {awards : List (Award α)} (h : shareOpenMarket cs free priced = .ok awards) :
    ∃ first second, Levels free priced cs first second ∧
      awards.map Award.share = cs.map (Contender.shareAt free priced first second) := by
  obtain ⟨d, hs, hd, hrest, hholds, rfl⟩ := shareOpenMarket_holds hw hc h
  obtain ⟨first, hfirst, hfshare, hftotal, hleft⟩ :=
    distribute_level (openMarket_nonneg cs) (regular_claims hw.free_pos hc) hd
  have hleft_nonneg : 0 ≤ d.unallocated := by
    rw [hleft, hftotal]
    exact sub_nonneg.2 (min_le_left _ _)
  obtain ⟨second, hsecond, hsshare, hstotal⟩ :=
    shareLeftover_level hleft_nonneg (regular_claims hw.priced_pos hc) hrest
  refine ⟨first, second, ⟨hfirst, hsecond, hftotal, by rw [hstotal, hleft]⟩, ?_⟩
  have hshares : ∀ h ∈ d.holdings.zip hs,
      h.1.share = h.1.toClaim.atLevel first ∧ h.2.share = h.2.toClaim.atLevel second :=
    fun h hmem => ⟨hfshare h.1 (List.of_mem_zip hmem).1, hsshare h.2 (List.of_mem_zip hmem).2⟩
  have hawards : List.Forall₂ (fun c award => award.share = c.shareAt free priced first second) cs
      (awardAll cs (d.holdings.zip hs)) := by
    refine forall₂_zipWith_of_forall₂ (forall₂_and_right hholds hshares) ?_
    rintro c h ⟨hh, hfirst, hsecond⟩
    rw [hh.share_award hw, hfirst, hsecond, hh.free_claim, hh.priced_claim]
    rfl
  exact (map_eq_of_forall₂ hawards fun h => h.symm).symm

end Market

end NestedLogit
