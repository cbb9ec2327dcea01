import NestedLogit.Proofs.Choice.Level

/-!
# Conservation of a market

Whatever an allocation gives out adds up to the market. Fixed shares, the shares of the free
contenders and those of the priced contenders are parts of a contender's share of which at most one
is not zero, so that the three sums can be taken apart.

## Main definitions

- `Contender.Admissible` — the contenders that pass the checks
- `Weighing` — weights for the open part of a market
- `leftover` — what free and priced claims leave over of a pool

## Main statements

- `allocate_conserves` — the shares of a market add up to one
-/

namespace NestedLogit

variable {α : Type} [ExactQuantity α]

namespace Contender

/-- What is checked of a contender: its limit and its fixed share are proportions, and the fixed
share respects the limit. -/
structure Admissible (c : Contender α) : Prop where
  limit_nonneg : 0 ≤ c.capacityLimit
  limit_le_one : c.capacityLimit ≤ 1
  fixed_nonneg : ∀ s, c.fixedShare = some s → 0 ≤ s
  fixed_le_one : ∀ s, c.fixedShare = some s → s ≤ 1
  fixed_le_limit : ∀ s, c.fixedShare = some s → s ≤ c.capacityLimit + Quantity.shareTolerance

theorem check_eq_ok_iff {c : Contender α} : c.check = .ok () ↔ c.Admissible := by
  unfold check
  cases hlimit : Quantity.isProportion c.capacityLimit with
  | false =>
    refine iff_of_false (by simp) fun h => ?_
    rw [Quantity.isProportion_iff.2 ⟨h.limit_nonneg, h.limit_le_one⟩] at hlimit
    cases hlimit
  | true =>
    obtain ⟨hl0, hl1⟩ := Quantity.isProportion_iff.1 hlimit
    cases hfixed : c.fixedShare with
    | none => exact iff_of_true rfl ⟨hl0, hl1, by simp [hfixed], by simp [hfixed], by simp [hfixed]⟩
    | some s =>
      cases hshare : Quantity.isProportion s with
      | false =>
        refine iff_of_false (by simp [hshare]) fun h => ?_
        have hs := Quantity.isProportion_iff.2 ⟨h.fixed_nonneg s hfixed, h.fixed_le_one s hfixed⟩
        rw [hs] at hshare
        cases hshare
      | true =>
        obtain ⟨hs0, hs1⟩ := Quantity.isProportion_iff.1 hshare
        by_cases hle : s ≤ c.capacityLimit + Quantity.shareTolerance
        · refine iff_of_true (by simp [hshare, hle]) ⟨hl0, hl1, ?_, ?_, ?_⟩ <;>
            (intro s' hs'; obtain rfl : s = s' := Option.some.inj (hfixed.symm.trans hs'))
          exacts [hs0, hs1, hle]
        · exact iff_of_false (by simp [hshare, hle]) fun h => hle (h.fixed_le_limit s hfixed)

/-- A weight that is free is the share weight of the contender, and positive. -/
theorem weight_eq_free {c : Contender α} {w : α} (h : c.weight = .free w) : 0 < w := by
  unfold weight logitWeight at h
  split at h
  · cases h
  · next hx =>
    have hpos : 0 < c.shareWeight := by
      simp only [Bool.or_eq_true, decide_eq_true_eq, not_or, not_le] at hx
      exact hx.1.2
    split at h
    · split at h
      · cases h
        exact hpos
      · split at h <;> cases h
    · dsimp only at h
      split at h <;> cases h
      exact hpos

theorem freeWeight_eq_some {c : Contender α} {w : α} (h : c.freeWeight = some w) :
    c.fixedShare = none ∧ c.weight = .free w := by
  unfold freeWeight at h
  split at h
  · cases h
  · next hfixed =>
    refine ⟨by simpa using hfixed, ?_⟩
    split at h
    · next v hv => rw [hv, Option.some.inj h]
    · cases h

theorem pricedWeight_eq_some {c : Contender α} {w : α} (h : c.pricedWeight = some w) :
    c.fixedShare = none ∧ c.weight = .priced w ∧ 0 < w := by
  unfold pricedWeight at h
  split at h
  · cases h
  · next hfixed =>
    split at h
    · next v hv =>
      split at h
      · next hpos =>
        cases h
        exact ⟨by simpa using hfixed, hv, hpos⟩
      · cases h
    · cases h

theorem equalWeight_eq_some {c : Contender α} {w : α} (h : c.equalWeight = some w) :
    c.fixedShare = none ∧ w = 1 := by
  unfold equalWeight at h
  split at h
  · cases h
  · next hfixed => exact ⟨by simpa using hfixed, (Option.some.inj h).symm⟩

end Contender

/-- Weights for the open part of a market: they are positive, nobody has a weight among both the
free and the priced contenders, and nobody with a fixed share has one at all. -/
structure Weighing (free priced : Contender α → Option α) : Prop where
  free_pos : ∀ c w, free c = some w → 0 < w
  priced_pos : ∀ c w, priced c = some w → 0 < w
  fixed_of_free : ∀ c w, free c = some w → c.fixedShare = none
  fixed_of_priced : ∀ c w, priced c = some w → c.fixedShare = none
  priced_of_free : ∀ c w, free c = some w → priced c = none

theorem weighing_logit : Weighing (α := α) Contender.freeWeight Contender.pricedWeight where
  free_pos _ _ h := Contender.weight_eq_free (Contender.freeWeight_eq_some h).2
  priced_pos _ _ h := (Contender.pricedWeight_eq_some h).2.2
  fixed_of_free _ _ h := (Contender.freeWeight_eq_some h).1
  fixed_of_priced _ _ h := (Contender.pricedWeight_eq_some h).1
  priced_of_free c w h := by
    cases hp : c.pricedWeight with
    | none => rfl
    | some v =>
      have hfree := (Contender.freeWeight_eq_some h).2
      rw [(Contender.pricedWeight_eq_some hp).2.1] at hfree
      cases hfree

theorem weighing_equal : Weighing (α := α) (fun _ => none) Contender.equalWeight where
  free_pos _ _ h := by cases h
  priced_pos _ _ h := by
    rw [(Contender.equalWeight_eq_some h).2]
    exact one_pos
  fixed_of_free _ _ h := by cases h
  fixed_of_priced _ _ h := (Contender.equalWeight_eq_some h).1
  priced_of_free _ _ h := by cases h

/-- The fixed part of a contender's share. -/
def Contender.fixedPart (c : Contender α) : α :=
  c.fixedShare.getD 0

theorem fixedTotal_eq_sum (cs : List (Contender α)) :
    fixedTotal cs = (cs.map Contender.fixedPart).sum := by
  rw [fixedTotal, Quantity.total_eq_sum, sum_filterMap]
  rfl

theorem Contender.Admissible.fixedPart_nonneg {c : Contender α} (h : c.Admissible) :
    0 ≤ c.fixedPart := by
  unfold Contender.fixedPart
  cases hs : c.fixedShare with
  | none => exact le_rfl
  | some s => exact h.fixed_nonneg s hs

/-- What stands in the way of an award that is made up of a free and a priced holding: the holdings
are those of the contender's two claims. -/
structure Holds (free priced : Contender α → Option α) (c : Contender α)
    (h : Holding α × Holding α) : Prop where
  free_claim : h.1.toClaim = c.claim (free c)
  priced_claim : h.2.toClaim = c.claim (priced c)
  free_sound : h.1.Sound
  priced_sound : h.2.Sound

/-- Of the fixed part, the free share and the priced share, at most one is not zero. -/
theorem Holds.share_award {free priced : Contender α → Option α} (hw : Weighing free priced)
    {c : Contender α} {h : Holding α × Holding α} (hh : Holds free priced c h) :
    (c.award h.1 h.2).share = c.fixedPart + (h.1.share + h.2.share) := by
  have hfree : h.1.weight = free c := congrArg Claim.weight hh.free_claim
  have hpriced : h.2.weight = priced c := congrArg Claim.weight hh.priced_claim
  -- A free weight rules out a priced one, and either of them rules out a fixed share.
  cases hf : free c with
  | some w =>
    have hzero := hh.priced_sound.share_of_weightless (hpriced.trans (hw.priced_of_free c w hf))
    simp [Contender.award, hfree, hf, Contender.fixedPart, hw.fixed_of_free c w hf, hzero]
  | none =>
    have hzero := hh.free_sound.share_of_weightless (hfree.trans hf)
    cases hp : priced c with
    | some w =>
      simp [Contender.award, hfree, hf, hpriced, hp, Contender.fixedPart,
        hw.fixed_of_priced c w hp, hzero]
    | none =>
      have hzero' := hh.priced_sound.share_of_weightless (hpriced.trans hp)
      simp [Contender.award, hfree, hf, hpriced, hp, Contender.fixedPart, hzero, hzero']

/-- Who has a fixed share gets it, and nothing else. -/
theorem Holds.share_award_of_fixed {free priced : Contender α → Option α}
    (hw : Weighing free priced) {c : Contender α} {h : Holding α × Holding α}
    (hh : Holds free priced c h) {s : α} (hs : c.fixedShare = some s) :
    (c.award h.1 h.2).share = s := by
  have hfree : h.1.weight = none := by
    rw [congrArg Claim.weight hh.free_claim]
    cases hf : free c with
    | none => rfl
    | some w => simp [hw.fixed_of_free c w hf] at hs
  have hpriced : h.2.weight = none := by
    rw [congrArg Claim.weight hh.priced_claim]
    cases hp : priced c with
    | none => rfl
    | some w => simp [hw.fixed_of_priced c w hp] at hs
  simp [Contender.award, hfree, hpriced, hs]

/-- Holdings of the claims of contenders, paired up. -/
theorem holds_zip {free priced : Contender α → Option α} {cs : List (Contender α)}
    {first second : List (Holding α)}
    (hfirst : first.map Holding.toClaim = cs.map fun c => c.claim (free c))
    (hsecond : second.map Holding.toClaim = cs.map fun c => c.claim (priced c))
    (hfs : ∀ h ∈ first, h.Sound) (hss : ∀ h ∈ second, h.Sound) :
    List.Forall₂ (Holds free priced) cs (first.zip second) := by
  induction cs generalizing first second with
  | nil =>
    rw [List.map_eq_nil_iff.1 hfirst]
    exact .nil
  | cons c cs ih =>
    obtain ⟨h₁, first, rfl, hc₁, hfirst⟩ := List.map_eq_cons_iff.1 hfirst
    obtain ⟨h₂, second, rfl, hc₂, hsecond⟩ := List.map_eq_cons_iff.1 hsecond
    rw [List.forall_mem_cons] at hfs hss
    exact .cons ⟨hc₁, hc₂, hfs.1, hss.1⟩ (ih hfirst hsecond hfs.2 hss.2)

/-- The awards of paired holdings. -/
def awardAll (cs : List (Contender α)) (hs : List (Holding α × Holding α)) : List (Award α) :=
  List.zipWith (fun c h => c.award h.1 h.2) cs hs

/-- What holds of each contender and its award holds of all. -/
theorem forall₂_awardAll {free priced : Contender α → Option α} {P : Contender α → Award α → Prop}
    {cs : List (Contender α)} {hs : List (Holding α × Holding α)}
    (hh : List.Forall₂ (Holds free priced) cs hs)
    (hP : ∀ c ∈ cs, ∀ h, Holds free priced c h → P c (c.award h.1 h.2)) :
    List.Forall₂ P cs (awardAll cs hs) := by
  induction hh with
  | nil => exact .nil
  | cons hc _ ih =>
    rw [List.forall_mem_cons] at hP
    exact .cons (hP.1 _ hc) (ih hP.2)

/-- The awards add up to the fixed parts and all holdings. -/
theorem sum_awardAll {free priced : Contender α → Option α} (hw : Weighing free priced)
    {cs : List (Contender α)} {hs : List (Holding α × Holding α)}
    (hh : List.Forall₂ (Holds free priced) cs hs) :
    ((awardAll cs hs).map Award.share).sum
      = (cs.map Contender.fixedPart).sum + (hs.map fun h => h.1.share + h.2.share).sum := by
  induction hh with
  | nil => simp [awardAll]
  | cons hc _ ih =>
    simp only [awardAll, List.zipWith_cons_cons, List.map_cons, List.sum_cons] at ih ⊢
    rw [ih, hc.share_award hw]
    ring

/-- The open part of a market is not negative. -/
theorem openMarket_nonneg (cs : List (Contender α)) : 0 ≤ openMarket cs := by
  rw [openMarket, Quantity.larger_eq_max]
  exact le_max_right _ _

section NoFixedShare

variable {cs : List (Contender α)}

theorem fixedTotal_eq_zero (h : ∀ c ∈ cs, c.fixedShare = none) : fixedTotal cs = 0 := by
  rw [fixedTotal, List.filterMap_eq_nil_iff.2 h]
  rfl

theorem fixedTotal_fits (h : fixedTotal cs = 0) :
    fixedTotal cs ≤ 1 + Quantity.shareTolerance := by
  rw [h]
  exact add_nonneg zero_le_one Quantity.shareTolerance_pos.le

theorem openMarket_eq_one (h : fixedTotal cs = 0) : openMarket cs = 1 := by
  rw [openMarket, h, sub_zero, Quantity.larger_eq_max, max_eq_left zero_le_one]

end NoFixedShare

/-- The claims for an open market are sound from the start. -/
theorem sound_claims {weight : Contender α → Option α} (hw : ∀ c w, weight c = some w → 0 < w)
    {cs : List (Contender α)} (hc : ∀ c ∈ cs, c.Admissible) :
    (∀ x ∈ cs.map fun c => c.claim (weight c), ∀ w, x.weight = some w → 0 ≤ w) ∧
      ∀ x ∈ cs.map fun c => c.claim (weight c), 0 ≤ x.limit := by
  simp only [List.forall_mem_map]
  exact ⟨fun c _ w h => (hw c w h).le, fun c hmem => (hc c hmem).limit_nonneg⟩

/-- What is left over of a pool for which free claims come first and priced ones second. The priced
ones get nothing of a rest that is nearly nothing. -/
def leftover (pool : α) (free priced : List (Claim α)) : α :=
  let rest := max (pool - totalCapacity free) 0
  if Quantity.shareTolerance < rest then max (rest - totalCapacity priced) 0 else rest

/-- Sharing out what the free contenders leave accounts for all of it, if it comes to a result:
either nearly nothing is left and nobody gets anything, or the priced contenders take nearly all. -/
theorem shareLeftover_accounts {claims : List (Claim α)} {u : α} {second : List (Holding α)}
    (hu : 0 ≤ u) (hw : ∀ c ∈ claims, ∀ w, c.weight = some w → 0 ≤ w)
    (hl : ∀ c ∈ claims, 0 ≤ c.limit) (h : shareLeftover u claims = .ok second) :
    ∃ d : Distribution α, d.holdings = second ∧ d.Accounts u claims ∧
      d.unallocated ≤ Quantity.shareTolerance ∧
      d.unallocated
        = if Quantity.shareTolerance < u then max (u - totalCapacity claims) 0 else u := by
  unfold shareLeftover at h
  split at h
  · next hlarge =>
    obtain ⟨d, hd, h⟩ := bind_eq_ok.1 h
    split at h
    · next hrest =>
      cases h
      refine ⟨d, rfl, distribute_accounts hu hw hl hd, hrest, ?_⟩
      rw [if_pos hlarge, distribute_unallocated hu hw hl hd]
    · cases h
  · next hsmall =>
    cases h
    refine ⟨⟨claims.map Holding.start, u⟩, rfl, ⟨map_toClaim_start claims, ?_, ?_, hu⟩,
      not_lt.1 hsmall, (if_neg hsmall).symm⟩
    · exact sound_map_start hw hl
    · simp [Function.comp_def, Holding.start]

/-- An open market is shared out into holdings of everybody's two claims: those of what the free
contenders get, and those of what these leave. -/
theorem shareOpenMarket_holds {free priced : Contender α → Option α} (hw : Weighing free priced)
    {cs : List (Contender α)} (hc : ∀ c ∈ cs, c.Admissible) {awards : List (Award α)}
    (h : shareOpenMarket cs free priced = .ok awards) :
    ∃ first : Distribution α, ∃ second,
      distribute (openMarket cs) (cs.map fun c => c.claim (free c)) = .ok first ∧
      shareLeftover first.unallocated (cs.map fun c => c.claim (priced c)) = .ok second ∧
      List.Forall₂ (Holds free priced) cs (first.holdings.zip second) ∧
      awards = awardAll cs (first.holdings.zip second) := by
  obtain ⟨first, hfirst, h⟩ := bind_eq_ok.1 (mapError_eq_ok.1 h)
  obtain ⟨second, hsecond, h⟩ := bind_eq_ok.1 h
  obtain ⟨hfw, hfl⟩ := sound_claims hw.free_pos hc
  obtain ⟨hpw, hpl⟩ := sound_claims hw.priced_pos hc
  have haccounts := distribute_accounts (openMarket_nonneg cs) hfw hfl hfirst
  obtain ⟨d, rfl, hrest, -⟩ :=
    shareLeftover_accounts haccounts.unallocated_nonneg hpw hpl hsecond
  exact ⟨first, d.holdings, hfirst, hsecond,
    holds_zip haccounts.claims_eq hrest.claims_eq haccounts.sound hrest.sound,
    (Except.ok.inj h).symm⟩

/-- What everybody holds of an open market leaves no more than the tolerance over. -/
theorem shareOpenMarket_eq_ok {free priced : Contender α → Option α} (hw : Weighing free priced)
    {cs : List (Contender α)} (hc : ∀ c ∈ cs, c.Admissible) {awards : List (Award α)}
    (h : shareOpenMarket cs free priced = .ok awards) :
    ∃ hs rest, List.Forall₂ (Holds free priced) cs hs ∧ awards = awardAll cs hs ∧
      (hs.map fun h => h.1.share + h.2.share).sum + rest = openMarket cs ∧
      0 ≤ rest ∧ rest ≤ Quantity.shareTolerance ∧
      rest = leftover (openMarket cs) (cs.map fun c => c.claim (free c))
        (cs.map fun c => c.claim (priced c)) := by
  obtain ⟨first, second, hfirst, hsecond, hholds, hawards⟩ := shareOpenMarket_holds hw hc h
  obtain ⟨hfw, hfl⟩ := sound_claims hw.free_pos hc
  obtain ⟨hpw, hpl⟩ := sound_claims hw.priced_pos hc
  have hunallocated := distribute_unallocated (openMarket_nonneg cs) hfw hfl hfirst
  have hfirst := distribute_accounts (openMarket_nonneg cs) hfw hfl hfirst
  obtain ⟨d, rfl, hsecond, hrest, hleft⟩ :=
    shareLeftover_accounts hfirst.unallocated_nonneg hpw hpl hsecond
  refine ⟨first.holdings.zip d.holdings, d.unallocated, hholds, hawards, ?_,
    hsecond.unallocated_nonneg, hrest, ?_⟩
  · have hlen : first.holdings.length = d.holdings.length := by
      rw [hfirst.length_eq, hsecond.length_eq, List.length_map, List.length_map]
    have hsum : ((first.holdings.zip d.holdings).map fun h => h.1.share + h.2.share).sum
        = (first.holdings.map Holding.share).sum + (d.holdings.map Holding.share).sum := by
      have hfst := congrArg (List.map Holding.share) (List.map_fst_zip hlen.le)
      have hsnd := congrArg (List.map Holding.share) (List.map_snd_zip hlen.ge)
      rw [List.map_map] at hfst hsnd
      rw [List.sum_map_add, ← hfst, ← hsnd]
      rfl
    rw [hsum, add_assoc, hsecond.sum_eq, hfirst.sum_eq]
  · rw [hleft, hunallocated]
    rfl

/-- Holdings of nothing leave everybody with their fixed share. -/
theorem Contender.award_start {free priced : Contender α → Option α} (hw : Weighing free priced)
    (c : Contender α) :
    c.award (Holding.start (c.claim (free c))) (Holding.start (c.claim (priced c)))
      = ⟨c.fixedPart, false⟩ := by
  unfold Contender.award Contender.fixedPart
  split
  · next hfree =>
    obtain ⟨w, hsome⟩ := Option.isSome_iff_exists.1 hfree
    rw [hw.fixed_of_free c w hsome]
    rfl
  · split
    · next hpriced =>
      obtain ⟨w, hsome⟩ := Option.isSome_iff_exists.1 hpriced
      rw [hw.fixed_of_priced c w hsome]
      rfl
    · rfl

/-- If everybody still holds nothing in the end, everybody has their fixed share. -/
theorem shareOpenMarket_of_start {free priced : Contender α → Option α} (hw : Weighing free priced)
    {cs : List (Contender α)} {rest : α}
    (hfirst : distribute (openMarket cs) (cs.map fun c => c.claim (free c))
      = .ok ⟨(cs.map fun c => c.claim (free c)).map Holding.start, rest⟩)
    (hsecond : shareLeftover rest (cs.map fun c => c.claim (priced c))
      = .ok ((cs.map fun c => c.claim (priced c)).map Holding.start)) :
    shareOpenMarket cs free priced = .ok (cs.map fun c => ⟨c.fixedPart, false⟩) := by
  refine mapError_eq_ok.2 (bind_eq_ok.2 ⟨_, hfirst, bind_eq_ok.2 ⟨_, hsecond, ?_⟩⟩)
  refine congrArg Except.ok ?_
  rw [List.map_map, List.map_map, List.zip_map', List.zipWith_map_right, List.zipWith_self]
  exact List.map_congr_left fun c _ => c.award_start hw

/-- A list of contenders passes the checks if each of them does and the fixed shares fit into the
market. -/
theorem checkContenders_eq_ok_iff {cs : List (Contender α)} :
    checkContenders cs = .ok () ↔
      (∀ c ∈ cs, c.Admissible) ∧ fixedTotal cs ≤ 1 + Quantity.shareTolerance := by
  have hforM : cs.forM Contender.check = .ok () ↔ ∀ c ∈ cs, c.Admissible := by
    simp only [forM_eq_ok, Contender.check_eq_ok_iff]
  rw [← hforM, checkContenders, bind_eq_ok]
  constructor
  · rintro ⟨⟨⟩, hcheck, hfit⟩
    split at hfit
    · next hle => exact ⟨hcheck, hle⟩
    · cases hfit
  · intro h
    exact ⟨(), h.1, if_pos h.2⟩

/-- The ways in which a market with contenders is shared out. -/
inductive AllocatedBy (cs : List (Contender α)) : Allocation α → Prop
  | logit {awards : List (Award α)} (fits : needsFallback cs = false)
      (shared : shareOpenMarket cs Contender.freeWeight Contender.pricedWeight = .ok awards) :
      AllocatedBy cs ⟨awards, none⟩
  | scaled (needed : needsFallback cs = true) (fixed : 0 < fixedTotal cs) :
      AllocatedBy cs ⟨scaledFixedShares cs, some .scaledFixedShares⟩
  | equal {awards : List (Award α)} (needed : needsFallback cs = true)
      (fixed : fixedTotal cs ≤ 0)
      (shared : shareOpenMarket cs (fun _ => none) Contender.equalWeight = .ok awards) :
      AllocatedBy cs ⟨awards, some .equalSplit⟩

theorem allocate_eq_ok {cs : List (Contender α)} (hne : cs ≠ []) {a : Allocation α}
    (h : allocate cs = .ok a) :
    ((∀ c ∈ cs, c.Admissible) ∧ fixedTotal cs ≤ 1 + Quantity.shareTolerance) ∧
      AllocatedBy cs a := by
  unfold allocate at h
  rw [if_neg (by simpa using hne)] at h
  obtain ⟨⟨⟩, hcheck, h⟩ := bind_eq_ok.1 h
  refine ⟨checkContenders_eq_ok_iff.1 hcheck, ?_⟩
  unfold allocateChecked at h
  split at h
  · next hneeded =>
    unfold allocateByFallback at h
    split at h
    · next hfixed =>
      cases h
      exact .scaled hneeded hfixed
    · next hfixed =>
      split at h
      · cases h
      · obtain ⟨awards, hshared, rfl⟩ := map_eq_ok.1 h
        exact .equal hneeded (not_lt.1 hfixed) hshared
  · next hfits =>
    obtain ⟨awards, hshared, rfl⟩ := map_eq_ok.1 h
    exact .logit (by simpa using hfits) hshared

/-- Awards that are shared out to admissible contenders are not negative, respect fixed shares and
add up to the market. -/
theorem shareOpenMarket_conserves {free priced : Contender α → Option α}
    (hw : Weighing free priced) {cs : List (Contender α)} (hc : ∀ c ∈ cs, c.Admissible)
    (hle : fixedTotal cs ≤ 1 + Quantity.shareTolerance) {awards : List (Award α)}
    (h : shareOpenMarket cs free priced = .ok awards) :
    List.Forall₂ (fun c a => 0 ≤ a.share ∧ ∀ s, c.fixedShare = some s → a.share = s) cs awards ∧
      |(awards.map Award.share).sum - 1| ≤ Quantity.shareTolerance := by
  obtain ⟨hs, rest, hholds, rfl, hsum, hrest0, hrest, -⟩ := shareOpenMarket_eq_ok hw hc h
  constructor
  · refine forall₂_awardAll hholds fun c hmem h hh => ?_
    refine ⟨?_, fun s hfixed => hh.share_award_of_fixed hw hfixed⟩
    rw [hh.share_award hw]
    have := (hc c hmem).fixedPart_nonneg
    have := hh.free_sound.share_nonneg
    have := hh.priced_sound.share_nonneg
    positivity
  · rw [sum_awardAll hw hholds, ← fixedTotal_eq_sum]
    rw [openMarket, Quantity.larger_eq_max] at hsum
    rw [abs_le]
    rcases le_total (1 - fixedTotal cs) 0 with hfull | hopen
    · -- The fixed shares fill the market and exceed it by no more than the tolerance.
      rw [max_eq_right hfull] at hsum
      constructor <;> linarith
    · rw [max_eq_left hopen] at hsum
      constructor <;> linarith

/-- Fixed shares that are scaled to the whole market add up to one. -/
theorem sum_scaledFixedShares {cs : List (Contender α)} (h : 0 < fixedTotal cs) :
    ((scaledFixedShares cs).map Award.share).sum = 1 := by
  have hshares : (scaledFixedShares cs).map Award.share
      = cs.map fun c => c.fixedPart * (fixedTotal cs)⁻¹ := by
    rw [scaledFixedShares, List.map_map]
    exact List.map_congr_left fun c _ => div_eq_mul_inv _ _
  rw [hshares, List.sum_map_mul_right, ← fixedTotal_eq_sum]
  exact mul_inv_cancel₀ h.ne'

/-- No share is negative, and fixed shares are respected unless they had to be scaled. -/
theorem forall₂_shares_allocate {cs : List (Contender α)} (hne : cs ≠ []) {a : Allocation α}
    (h : allocate cs = .ok a) :
    List.Forall₂
      (fun c share => 0 ≤ share ∧
        (a.fallback ≠ some .scaledFixedShares → ∀ s, c.fixedShare = some s → share = s))
      cs a.shares := by
  obtain ⟨⟨hc, hle⟩, hby⟩ := allocate_eq_ok hne h
  cases hby with
  | logit _ hshared =>
    have hawards := (shareOpenMarket_conserves weighing_logit hc hle hshared).1
    exact List.forall₂_map_right_iff.2 (hawards.imp fun _ _ h => ⟨h.1, fun _ => h.2⟩)
  | equal _ _ hshared =>
    have hawards := (shareOpenMarket_conserves weighing_equal hc hle hshared).1
    exact List.forall₂_map_right_iff.2 (hawards.imp fun _ _ h => ⟨h.1, fun _ => h.2⟩)
  | scaled _ hfixed =>
    rw [Allocation.shares, scaledFixedShares, List.map_map, List.forall₂_map_right_iff,
      List.forall₂_same]
    intro c hmem
    refine ⟨div_nonneg (hc c hmem).fixedPart_nonneg hfixed.le, ?_⟩
    intro hother
    exact absurd rfl hother

/-- A fixed share of nothing is nothing, also if fixed shares are scaled. -/
theorem forall₂_nothing_allocate {cs : List (Contender α)} (hne : cs ≠ []) {a : Allocation α}
    (h : allocate cs = .ok a) :
    List.Forall₂ (fun c share => c.fixedShare = some 0 → share = 0) cs a.shares := by
  have hshares := forall₂_shares_allocate hne h
  by_cases hscaled : a.fallback = some .scaledFixedShares
  · obtain ⟨-, hby⟩ := allocate_eq_ok hne h
    cases hby with
    | logit _ _ => cases hscaled
    | equal _ _ _ => cases hscaled
    | scaled _ _ =>
      rw [Allocation.shares, scaledFixedShares, List.map_map, List.forall₂_map_right_iff,
        List.forall₂_same]
      intro c _ hnothing
      simp [hnothing]
  · exact hshares.imp fun c share hc hnothing => hc.2 hscaled 0 hnothing

/-- The shares of contenders add up to one within the tolerance. -/
theorem sum_shares_allocate {cs : List (Contender α)} (hne : cs ≠ []) {a : Allocation α}
    (h : allocate cs = .ok a) : |a.shares.sum - 1| ≤ Quantity.shareTolerance := by
  obtain ⟨⟨hc, hle⟩, hby⟩ := allocate_eq_ok hne h
  cases hby with
  | logit _ hshared => exact (shareOpenMarket_conserves weighing_logit hc hle hshared).2
  | equal _ _ hshared => exact (shareOpenMarket_conserves weighing_equal hc hle hshared).2
  | scaled _ hfixed =>
    rw [Allocation.shares, sum_scaledFixedShares hfixed, sub_self, abs_zero]
    exact Quantity.shareTolerance_pos.le

/-- Whatever way a market is shared out, no share is negative, the shares add up to one within the
tolerance, and fixed shares are respected unless they had to be scaled. -/
theorem allocate_conserves {cs : List (Contender α)} (hne : cs ≠ []) {a : Allocation α}
    (h : allocate cs = .ok a) :
    List.Forall₂
        (fun c share => 0 ≤ share ∧
          (a.fallback ≠ some .scaledFixedShares → ∀ s, c.fixedShare = some s → share = s))
        cs a.shares ∧
      |a.shares.sum - 1| ≤ Quantity.shareTolerance :=
  ⟨forall₂_shares_allocate hne h, sum_shares_allocate hne h⟩

/-- A market with a fixed share, a free contender with little capacity and two priced ones. -/
def mixedMarket : List (Contender ℚ) :=
  [⟨1, 5, -2, 1, some (1 / 4)⟩, ⟨2, 0, -1, 1 / 5, none⟩, ⟨1, 10, -1, 1, none⟩, ⟨1, 20, -1, 1, none⟩]

/-- The free contender gets its limit, and the priced ones share the rest two to one. -/
def mixedAllocation : Allocation ℚ :=
  ⟨[⟨1 / 4, false⟩, ⟨1 / 5, true⟩, ⟨11 / 30, false⟩, ⟨11 / 60, false⟩], none⟩

theorem mixedMarket_conserved :
    (mixedMarket ≠ [] ∧ allocate mixedMarket = .ok mixedAllocation) ∧
      List.Forall₂
        (fun c share => 0 ≤ share ∧ (mixedAllocation.fallback ≠ some .scaledFixedShares →
          ∀ s, c.fixedShare = some s → share = s))
        mixedMarket mixedAllocation.shares ∧
      |mixedAllocation.shares.sum - 1| ≤ Quantity.shareTolerance := by
  have hne : mixedMarket ≠ [] := by simp [mixedMarket]
  have h : allocate mixedMarket = .ok mixedAllocation := by with_unfolding_all rfl
  exact ⟨⟨hne, h⟩, allocate_conserves hne h⟩

end NestedLogit
