import NestedLogit.Proofs.Choice.Conservation

/-!
# Shares and capacity limits

No share exceeds the capacity limit of its contender by more than the tolerance, as long as fixed
shares are not scaled. Scaling does not look at limits: a fixed share that is scaled to fill the
market may be any proportion of it.

## Main statements

- `Holds.share_award_le` — an award respects the limit
- `proportion_of_mem_shares` — a share is a proportion of the market
- `allocate_respects_limits_iff` — which shares respect the limit
- `cappedMarket_overrun` — a share that does not
-/

namespace NestedLogit

variable {α : Type} [ExactQuantity α]

/-- An award comes from a fixed share or from a holding, and neither exceeds what bounds both the
limit and the fixed share. -/
theorem Holds.share_award_le_of_bound {free priced : Contender α → Option α} {c : Contender α}
    {h : Holding α × Holding α} (hh : Holds free priced c h) {bound : α} (hbound : 0 ≤ bound)
    (hlimit : c.capacityLimit ≤ bound) (hfixed : ∀ s, c.fixedShare = some s → s ≤ bound) :
    (c.award h.1 h.2).share ≤ bound := by
  have hfree : h.1.share ≤ c.capacityLimit :=
    hh.free_sound.share_le_limit.trans_eq (congrArg Claim.limit hh.free_claim)
  have hpriced : h.2.share ≤ c.capacityLimit :=
    hh.priced_sound.share_le_limit.trans_eq (congrArg Claim.limit hh.priced_claim)
  unfold Contender.award
  split
  · exact hfree.trans hlimit
  · split
    · exact hpriced.trans hlimit
    · change c.fixedShare.getD 0 ≤ _
      cases hs : c.fixedShare with
      | none => exact hbound
      | some s => exact hfixed s hs

/-- An award respects the limit. -/
theorem Holds.share_award_le {free priced : Contender α → Option α} {c : Contender α}
    {h : Holding α × Holding α} (hh : Holds free priced c h) (hc : c.Admissible) :
    (c.award h.1 h.2).share ≤ c.capacityLimit + Quantity.shareTolerance := by
  have htol : (0 : α) ≤ Quantity.shareTolerance := Quantity.shareTolerance_pos.le
  exact hh.share_award_le_of_bound (add_nonneg hc.limit_nonneg htol)
    (le_add_of_nonneg_right htol) hc.fixed_le_limit

theorem shareOpenMarket_respects_limits {free priced : Contender α → Option α}
    (hw : Weighing free priced) {cs : List (Contender α)} (hc : ∀ c ∈ cs, c.Admissible)
    {awards : List (Award α)} (h : shareOpenMarket cs free priced = .ok awards) :
    List.Forall₂ (fun c a => a.share ≤ c.capacityLimit + Quantity.shareTolerance) cs awards := by
  obtain ⟨hs, -, hholds, rfl, -⟩ := shareOpenMarket_eq_ok hw hc h
  exact forall₂_awardAll hholds fun c hmem h hh => hh.share_award_le (hc c hmem)

/-- A contender's share respects the limit, unless fixed shares are scaled: then it does exactly if
the limit is no less than the contender's part of all fixed shares. -/
theorem allocate_respects_limits_iff {cs : List (Contender α)} {a : Allocation α}
    (h : allocate cs = .ok a) :
    List.Forall₂
      (fun c share => share ≤ c.capacityLimit + Quantity.shareTolerance ↔
        (a.fallback = some .scaledFixedShares →
          c.fixedPart ≤ (c.capacityLimit + Quantity.shareTolerance) * fixedTotal cs))
      cs a.shares := by
  by_cases hne : cs = []
  · subst hne
    cases h
    exact .nil
  · obtain ⟨⟨hc, -⟩, hby⟩ := allocate_eq_ok hne h
    cases hby with
    | logit _ hshared =>
      have hlimits := shareOpenMarket_respects_limits weighing_logit hc hshared
      refine List.forall₂_map_right_iff.2 (hlimits.imp fun c x hx => iff_of_true hx ?_)
      intro hscaled
      cases hscaled
    | equal _ _ hshared =>
      have hlimits := shareOpenMarket_respects_limits weighing_equal hc hshared
      refine List.forall₂_map_right_iff.2 (hlimits.imp fun c x hx => iff_of_true hx ?_)
      intro hscaled
      cases hscaled
    | scaled _ hfixed =>
      rw [Allocation.shares, scaledFixedShares, List.map_map, List.forall₂_map_right_iff,
        List.forall₂_same]
      intro c _
      change c.fixedPart / fixedTotal cs ≤ _ ↔ _
      rw [div_le_iff₀ hfixed]
      exact ⟨fun hle _ => hle, fun hle => hle rfl⟩

theorem shareOpenMarket_le_one {free priced : Contender α → Option α} (hw : Weighing free priced)
    {cs : List (Contender α)} (hc : ∀ c ∈ cs, c.Admissible) {awards : List (Award α)}
    (h : shareOpenMarket cs free priced = .ok awards) : ∀ a ∈ awards, a.share ≤ 1 := by
  obtain ⟨hs, -, hholds, rfl, -⟩ := shareOpenMarket_eq_ok hw hc h
  have hle : List.Forall₂ (fun _ a => a.share ≤ 1) cs (awardAll cs hs) :=
    forall₂_awardAll hholds fun c hmem h hh => hh.share_award_le_of_bound zero_le_one
      (hc c hmem).limit_le_one (hc c hmem).fixed_le_one
  exact forall_mem_of_forall₂ hle fun _ _ _ ha => ha

/-- Scaled or not, a share is a proportion of the market. -/
theorem proportion_of_mem_shares {cs : List (Contender α)} {a : Allocation α}
    (h : allocate cs = .ok a) : ∀ share ∈ a.shares, 0 ≤ share ∧ share ≤ 1 := by
  by_cases hne : cs = []
  · subst hne
    cases h
    exact fun share hmem => absurd hmem List.not_mem_nil
  · have hnonneg := forall_mem_of_forall₂ (forall₂_shares_allocate hne h) fun _ _ _ hx => hx.1
    suffices hle : ∀ share ∈ a.shares, share ≤ 1 from
      fun share hmem => ⟨hnonneg share hmem, hle share hmem⟩
    obtain ⟨⟨hc, -⟩, hby⟩ := allocate_eq_ok hne h
    cases hby with
    | logit _ hshared =>
      exact List.forall_mem_map.2 (shareOpenMarket_le_one weighing_logit hc hshared)
    | equal _ _ hshared =>
      exact List.forall_mem_map.2 (shareOpenMarket_le_one weighing_equal hc hshared)
    | scaled _ hfixed =>
      rw [Allocation.shares, scaledFixedShares, List.map_map]
      refine List.forall_mem_map.2 fun c hmem => ?_
      change c.fixedPart / fixedTotal cs ≤ 1
      rw [div_le_one hfixed, fixedTotal_eq_sum]
      exact List.single_le_sum (List.forall_mem_map.2 fun c hmem => (hc c hmem).fixedPart_nonneg) _
        (List.mem_map_of_mem hmem)

/-- A market with a fixed share within its limit, and with nobody for the rest. -/
def cappedMarket : List (Contender ℚ) :=
  [⟨1, 1, -1, 3 / 10, some (1 / 5)⟩, ⟨0, 1, -1, 1, none⟩]

/-- The fixed share is scaled to the whole market. -/
def cappedAllocation : Allocation ℚ :=
  ⟨[⟨1, false⟩, ⟨0, false⟩], some .scaledFixedShares⟩

theorem cappedMarket_respects_limits_iff :
    allocate cappedMarket = .ok cappedAllocation ∧
      List.Forall₂
        (fun c share => share ≤ c.capacityLimit + Quantity.shareTolerance ↔
          (cappedAllocation.fallback = some .scaledFixedShares →
            c.fixedPart ≤ (c.capacityLimit + Quantity.shareTolerance) * fixedTotal cappedMarket))
        cappedMarket cappedAllocation.shares := by
  have h : allocate cappedMarket = .ok cappedAllocation := by with_unfolding_all rfl
  exact ⟨h, allocate_respects_limits_iff h⟩

/-- The scaled share is more than three times the limit. -/
theorem cappedMarket_overrun :
    allocate cappedMarket = .ok cappedAllocation ∧
      ¬List.Forall₂ (fun c share => share ≤ c.capacityLimit + Quantity.shareTolerance)
        cappedMarket cappedAllocation.shares := by
  refine ⟨by with_unfolding_all rfl, fun hall => ?_⟩
  obtain ⟨hfirst, -⟩ := List.forall₂_cons.1 hall
  rw [Quantity.shareTolerance, Quantity.whole_eq_cast] at hfirst
  norm_num at hfirst

end NestedLogit
