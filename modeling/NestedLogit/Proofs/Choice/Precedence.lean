import NestedLogit.Proofs.Choice.Unmet

/-!
# Who comes first

In a market that is shared out by logit weights, whoever is excluded gets nothing, and free
contenders come before priced ones: if a priced contender gets anything at all, every free one has
all it can take, and the priced ones share what is left.

## Main definitions

- `freeLimits` — the most that the free contenders can take together
- `pricedShares` — what the priced contenders get

## Main statements

- `distribute_exhausted` — where something is left over, everybody who competes is limited
- `allocate_precedence` — the order in which a market is served
-/

namespace NestedLogit

variable {α : Type} [ExactQuantity α]

namespace Holds

variable {free priced : Contender α → Option α} {c : Contender α} {h : Holding α × Holding α}

theorem weight_free (hh : Holds free priced c h) : h.1.weight = free c :=
  congrArg Claim.weight hh.free_claim

theorem weight_priced (hh : Holds free priced c h) : h.2.weight = priced c :=
  congrArg Claim.weight hh.priced_claim

theorem award_of_free (hh : Holds free priced c h) {w : α} (hf : free c = some w) :
    c.award h.1 h.2 = ⟨h.1.share, h.1.limited⟩ := by
  simp [Contender.award, hh.weight_free, hf]

theorem award_of_priced (hh : Holds free priced c h) {w : α} (hf : free c = none)
    (hp : priced c = some w) : c.award h.1 h.2 = ⟨h.2.share, h.2.limited⟩ := by
  simp [Contender.award, hh.weight_free, hf, hh.weight_priced, hp]

theorem award_of_idle (hh : Holds free priced c h) (hf : free c = none) (hp : priced c = none) :
    c.award h.1 h.2 = ⟨c.fixedPart, false⟩ := by
  simp [Contender.award, Contender.fixedPart, hh.weight_free, hf, hh.weight_priced, hp]

end Holds

/-- Where something is left over, everybody who competes is limited. -/
theorem distribute_exhausted {pool : α} {claims : List (Claim α)} {d : Distribution α}
    (hpool : 0 ≤ pool) (hw : ∀ c ∈ claims, ∀ w, c.weight = some w → 0 ≤ w)
    (hl : ∀ c ∈ claims, 0 ≤ c.limit) (h : distribute pool claims = .ok d)
    (hrest : 0 < d.unallocated) :
    ∀ x ∈ d.holdings, x.Competes → x.share = x.limit ∧ x.limited = true := by
  intro x hx hc
  have hlimited : x.limited = true := by
    rcases distribute_atLevel hpool hw hl h with hall | ⟨hnothing, -⟩
    · exact hall x hx hc
    · exact absurd hnothing hrest.ne'
  exact ⟨((distribute_accounts hpool hw hl h).sound x hx).share_of_limited hlimited, hlimited⟩

/-- Nobody gets anything of a rest within the tolerance. -/
theorem tolerance_lt_of_share_pos {rest : α} {claims : List (Claim α)} {second : List (Holding α)}
    (h : shareLeftover rest claims = .ok second) {x : Holding α} (hx : x ∈ second)
    (hpos : 0 < x.share) : Quantity.shareTolerance < rest := by
  by_contra hsmall
  rw [shareLeftover, if_neg hsmall] at h
  cases h
  obtain ⟨c, -, rfl⟩ := List.mem_map.1 hx
  exact lt_irrefl _ hpos

/-- The most that the free contenders can take together. -/
def freeLimits (cs : List (Contender α)) : α :=
  ((cs.filter fun c => c.freeWeight.isSome).map Contender.capacityLimit).sum

/-- What the priced contenders get. -/
def pricedShares (cs : List (Contender α)) (awards : List (Award α)) : List α :=
  ((cs.zip awards).filter fun x => x.1.pricedWeight.isSome).map fun x => x.2.share

theorem totalCapacity_freeClaims (cs : List (Contender α)) :
    totalCapacity (cs.map fun c => c.claim c.freeWeight) = freeLimits cs := by
  have hcapacity : (cs.map fun c => (c.claim c.freeWeight).capacity)
      = cs.map fun c => if c.freeWeight.isSome then c.capacityLimit else 0 :=
    List.map_congr_left fun c _ => c.capacity_claim weighing_logit.free_pos
  rw [totalCapacity, List.map_map, freeLimits]
  change (cs.map fun c => (c.claim c.freeWeight).capacity).sum = _
  rw [hcapacity, List.sum_map_ite]
  simp

section Market

variable {cs : List (Contender α)} {hs : List (Holding α × Holding α)}

theorem pricedShares_cons {c : Contender α} {h : Holding α × Holding α}
    (hc : Holds Contender.freeWeight Contender.pricedWeight c h) :
    pricedShares (c :: cs) (awardAll (c :: cs) (h :: hs))
      = (if c.pricedWeight.isSome then [h.2.share] else [])
        ++ pricedShares cs (awardAll cs hs) := by
  cases hp : c.pricedWeight with
  | none => simp [pricedShares, awardAll, hp]
  | some w =>
    have hfree : c.freeWeight = none := by
      cases hf : c.freeWeight with
      | none => rfl
      | some v => exact absurd (weighing_logit.priced_of_free c v hf) (by simp [hp])
    simp [pricedShares, awardAll, hp, hc.award_of_priced hfree hp]

/-- The priced contenders get what is held of their claims. -/
theorem sum_pricedShares
    (hholds : List.Forall₂ (Holds Contender.freeWeight Contender.pricedWeight) cs hs) :
    (pricedShares cs (awardAll cs hs)).sum = (hs.map fun h => h.2.share).sum := by
  induction hholds with
  | nil => rfl
  | @cons c h cs hs hc _ ih =>
    rw [pricedShares_cons hc, List.sum_append, ih, List.map_cons, List.sum_cons]
    congr 1
    by_cases hp : c.pricedWeight.isSome = true
    · rw [if_pos hp, List.sum_singleton]
    · rw [if_neg hp, List.sum_nil]
      have hnone : h.2.weight = none := by rw [hc.weight_priced]; simpa using hp
      exact (hc.priced_sound.share_of_weightless hnone).symm

omit [ExactQuantity α] in
theorem map_snd_share_zip {first second : List (Holding α)}
    (hlength : first.length = second.length) :
    ((first.zip second).map fun h => h.2.share) = second.map Holding.share := by
  conv_rhs => rw [← List.map_snd_zip hlength.ge]
  rw [List.map_map]
  rfl

/-- What a priced contender gets it holds of its claim. -/
theorem exists_holding_of_mem_pricedShares
    (hholds : List.Forall₂ (Holds Contender.freeWeight Contender.pricedWeight) cs hs) {share : α}
    (hshare : share ∈ pricedShares cs (awardAll cs hs)) : ∃ h ∈ hs, h.2.share = share := by
  induction hholds with
  | nil => cases hshare
  | @cons c h cs hs hc _ ih =>
    rw [pricedShares_cons hc] at hshare
    rcases List.mem_append.1 hshare with hhead | htail
    · refine ⟨h, List.mem_cons_self, ?_⟩
      split at hhead
      · exact (List.mem_singleton.1 hhead).symm
      · cases hhead
    · obtain ⟨x, hx, rfl⟩ := ih htail
      exact ⟨x, List.mem_cons_of_mem h hx, rfl⟩

/-- A market that needed no fallback was shared out by logit weights. -/
theorem allocate_regular (hne : cs ≠ []) {a : Allocation α} (h : allocate cs = .ok a)
    (hregular : a.fallback = none) :
    (∀ c ∈ cs, c.Admissible) ∧
      shareOpenMarket cs Contender.freeWeight Contender.pricedWeight = .ok a.awards := by
  obtain ⟨⟨hc, -⟩, hby⟩ := allocate_eq_ok hne h
  cases hby with
  | logit _ hshared => exact ⟨hc, hshared⟩
  | scaled _ _ => cases hregular
  | equal _ _ _ => cases hregular

theorem forall₂_excluded
    (hholds : List.Forall₂ (Holds Contender.freeWeight Contender.pricedWeight) cs hs) :
    List.Forall₂ (fun c award => c.fixedShare = none → ¬c.TakesPart → award.share = 0)
      cs (awardAll cs hs) := by
  refine forall₂_awardAll hholds fun c _ h hh hfixed hout => ?_
  have hexcluded := Contender.weight_of_not_takesPart hout
  have hfree : c.freeWeight = none := by simp [Contender.freeWeight, hexcluded]
  have hpriced : c.pricedWeight = none := by simp [Contender.pricedWeight, hexcluded]
  rw [hh.award_of_idle hfree hpriced]
  simp [Contender.fixedPart, hfixed]

end Market

/-- In a market that needs no fallback, whoever has no share weight, no finite price, or a price of
nothing that a positive exponent makes a weight of nothing, gets nothing; and if a priced contender
gets anything, every free one has its limit, and the priced ones take the rest of the open market
but for the tolerance. -/
theorem allocate_precedence {cs : List (Contender α)} {a : Allocation α}
    (h : allocate cs = .ok a) (hregular : a.fallback = none) :
    List.Forall₂
        (fun c award => c.fixedShare = none →
          c.shareWeight ≤ 0 ∨ Quantity.isFinite c.price = false ∨
            c.price ≤ 0 ∧ 0 < c.logitExponent →
          award.share = 0)
        cs a.awards ∧
      ((∃ share ∈ pricedShares cs a.awards, 0 < share) →
        List.Forall₂
            (fun c award => c.freeWeight.isSome = true →
              award.share = c.capacityLimit ∧ award.capacityLimited = true)
            cs a.awards ∧
          openMarket cs - freeLimits cs - Quantity.shareTolerance
            ≤ (pricedShares cs a.awards).sum ∧
          (pricedShares cs a.awards).sum ≤ openMarket cs - freeLimits cs) := by
  by_cases hne : cs = []
  · subst hne
    cases h
    refine ⟨.nil, ?_⟩
    rintro ⟨share, hshare, -⟩
    cases hshare
  obtain ⟨hc, hshared⟩ := allocate_regular hne h hregular
  obtain ⟨first, second, hfirst, hsecond, hholds, hawards⟩ :=
    shareOpenMarket_holds weighing_logit hc hshared
  rw [hawards]
  constructor
  · refine (forall₂_excluded hholds).imp fun c award hout hfixed hcase => hout hfixed ?_
    rintro ⟨hweight, hfinite, hprice⟩
    rcases hcase with hnone | hinfinite | ⟨hzero, hexponent⟩
    · exact absurd hnone (not_le.2 hweight)
    · simp [hfinite] at hinfinite
    · rcases hprice with hpositive | hle
      · exact absurd hzero (not_le.2 hpositive)
      · exact absurd hexponent (not_lt.2 hle)
  · rintro ⟨share, hshare, hpos⟩
    obtain ⟨x, hx, rfl⟩ := exists_holding_of_mem_pricedShares hholds hshare
    have hlarge := tolerance_lt_of_share_pos hsecond (List.of_mem_zip hx).2 hpos
    have hrest := Quantity.shareTolerance_pos.trans hlarge
    obtain ⟨hfw, hfl⟩ := sound_claims weighing_logit.free_pos hc
    obtain ⟨hpw, hpl⟩ := sound_claims weighing_logit.priced_pos hc
    have hexhausted := distribute_exhausted (openMarket_nonneg cs) hfw hfl hfirst hrest
    -- What is left is positive, so that it is the open market less what the free ones can take.
    have hleft : first.unallocated = openMarket cs - freeLimits cs := by
      have hmax := distribute_unallocated (openMarket_nonneg cs) hfw hfl hfirst
      rw [totalCapacity_freeClaims] at hmax
      rw [hmax] at hrest ⊢
      exact max_eq_left ((lt_max_iff.1 hrest).resolve_right (lt_irrefl _)).le
    obtain ⟨d, rfl, haccounts, hnearly, -⟩ := shareLeftover_accounts hrest.le hpw hpl hsecond
    refine ⟨?_, ?_⟩
    · have hlimits : ∀ h ∈ first.holdings.zip d.holdings,
          h.1.Competes → h.1.share = h.1.limit ∧ h.1.limited = true :=
        fun h hmem => hexhausted h.1 (List.of_mem_zip hmem).1
      refine forall₂_zipWith_of_forall₂ (forall₂_and_right hholds hlimits) ?_
      rintro c h ⟨hh, hlimit⟩ hfree
      obtain ⟨w, hw⟩ := Option.isSome_iff_exists.1 hfree
      rw [hh.award_of_free hw]
      have hclaim : h.1.limit = c.capacityLimit := congrArg Claim.limit hh.free_claim
      exact hclaim ▸ hlimit ⟨w, hh.weight_free.trans hw, weighing_logit.free_pos c w hw⟩
    · have hlength : first.holdings.length = d.holdings.length := by
        rw [(distribute_accounts (openMarket_nonneg cs) hfw hfl hfirst).length_eq,
          haccounts.length_eq, List.length_map, List.length_map]
      have hsum := haccounts.sum_eq
      have hnonneg := haccounts.unallocated_nonneg
      rw [sum_pricedShares hholds, map_snd_share_zip hlength, ← hleft]
      constructor <;> linarith

/-- A contender with a fixed share, a free one with little capacity, a priced one and two that are
excluded: one has no share weight, the other costs nothing at a positive exponent. -/
def orderlyMarket : List (Contender ℚ) :=
  [⟨1, 5, -2, 1, some (1 / 4)⟩, ⟨2, 0, -1, 1 / 5, none⟩, ⟨1, 10, -1, 1, none⟩, ⟨0, 1, -1, 1, none⟩,
    ⟨3, 0, 1, 1, none⟩]

/-- The free contender has its limit, and the priced one the rest. -/
def orderlyAllocation : Allocation ℚ :=
  ⟨[⟨1 / 4, false⟩, ⟨1 / 5, true⟩, ⟨11 / 20, false⟩, ⟨0, false⟩, ⟨0, false⟩], none⟩

theorem orderlyMarket_precedence :
    (allocate orderlyMarket = .ok orderlyAllocation ∧ orderlyAllocation.fallback = none) ∧
      (∃ share ∈ pricedShares orderlyMarket orderlyAllocation.awards, 0 < share) ∧
      List.Forall₂
        (fun c award => c.fixedShare = none →
          c.shareWeight ≤ 0 ∨ Quantity.isFinite c.price = false ∨
            c.price ≤ 0 ∧ 0 < c.logitExponent →
          award.share = 0)
        orderlyMarket orderlyAllocation.awards ∧
      List.Forall₂
        (fun c award => c.freeWeight.isSome = true →
          award.share = c.capacityLimit ∧ award.capacityLimited = true)
        orderlyMarket orderlyAllocation.awards ∧
      openMarket orderlyMarket - freeLimits orderlyMarket - Quantity.shareTolerance
        ≤ (pricedShares orderlyMarket orderlyAllocation.awards).sum ∧
      (pricedShares orderlyMarket orderlyAllocation.awards).sum
        ≤ openMarket orderlyMarket - freeLimits orderlyMarket := by
  have h : allocate orderlyMarket = .ok orderlyAllocation := by with_unfolding_all rfl
  have hshares : pricedShares orderlyMarket orderlyAllocation.awards = [11 / 20] := by decide +kernel
  have hsome : ∃ share ∈ pricedShares orderlyMarket orderlyAllocation.awards, 0 < share :=
    ⟨11 / 20, by rw [hshares]; exact List.mem_singleton_self _, by norm_num⟩
  obtain ⟨hexcluded, hpriced⟩ := allocate_precedence h rfl
  exact ⟨⟨h, rfl⟩, hsome, hexcluded, hpriced hsome⟩

end NestedLogit
