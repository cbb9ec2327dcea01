import NestedLogit.Proofs.Choice.Passes

/-!
# The level of a sharing

A pool that is shared out under limits rises in the claims like water in basins: there is one level
such that everybody gets what the level gives for the weight, or the limit if that is less. Every
pass has a level of its own, which is what it gives for a weight of one. A claim that becomes
limited leaves more to the others than it would have taken, so that the level never falls from one
pass to the next, and nobody is limited too early.

## Main definitions

- `Claim.capacity` — the most that a claim can take
- `Holding.AtLevel` — a share that follows from a level
- `Exhausted`, `Levelled` — the two ways in which a pool can be shared out

## Main statements

- `passLevel_le_pass` — the level does not fall in a pass
- `limitShares_levels` — a pool is exhausted or shared out at one level
- `distribute_unallocated` — what nobody can take is what the pool exceeds the capacity by
-/

namespace NestedLogit

variable {α : Type} [ExactQuantity α]

/-- The most that a claim can take: its limit, if it takes part with a positive weight. -/
def Claim.capacity (c : Claim α) : α :=
  match c.weight with
  | some w => if 0 < w then c.limit else 0
  | none => 0

theorem Claim.capacity_nonneg {c : Claim α} (hl : 0 ≤ c.limit) : 0 ≤ c.capacity := by
  unfold Claim.capacity
  split
  · split
    · exact hl
    · exact le_rfl
  · exact le_rfl

/-- The most that claims can take together. -/
def totalCapacity (claims : List (Claim α)) : α :=
  (claims.map Claim.capacity).sum

namespace Holding

theorem capacity_of_competes {h : Holding α} (hc : h.Competes) : h.capacity = h.limit := by
  obtain ⟨w, hw, hpos⟩ := hc
  simp [Claim.capacity, hw, hpos]

theorem capacity_of_idle {h : Holding α} (hc : ¬h.Competes) : h.capacity = 0 := by
  unfold Claim.capacity
  split
  · next w hw => exact if_neg fun hpos => hc ⟨w, hw, hpos⟩
  · rfl

/-- The weight with which a holding still competes, or zero. -/
def openPart (h : Holding α) : α :=
  h.openWeight.getD 0

/-- A share that follows from a level: it is what the level gives for the weight, or the limit if
that is less, and only then does the limit bind. -/
structure AtLevel (level : α) (h : Holding α) : Prop where
  share_eq : ∀ w, h.weight = some w → h.share = min h.limit (level * w)
  limited_iff : ∀ w, h.weight = some w → (h.limited = true ↔ h.limit < level * w)

/-- Whether the limit, if it binds, would bind at a level. -/
def LimitedBelow (level : α) (h : Holding α) : Prop :=
  h.limited = true → ∃ w, h.weight = some w ∧ h.limit < level * w

theorem portion_eq_level_mul {pool total : α} (ht : 0 < total) (w : α) :
    portion pool total w = pool / total * w := by
  rw [portion, if_pos ht, div_mul_eq_mul_div]

/-- A holding that becomes limited in a pass gives up a bid for more than it gets. -/
theorem settled_add_openPart_pass_le (h : Holding α) {pool total : α} (ht : 0 < total) :
    (h.pass pool total).settled + pool / total * (h.pass pool total).openPart
      ≤ h.settled + pool / total * h.openPart := by
  cases hw : h.openWeight with
  | none => rw [pass_of_closed hw]
  | some w =>
    have hopen := (openWeight_eq_some hw).1
    cases ho : h.overflows pool total with
    | true =>
      have hlt := limit_lt_portion hw ho
      rw [portion_eq_level_mul ht] at hlt
      rw [pass_of_overflows ho, settled_of_limited rfl, settled_of_open hopen]
      simpa [openPart, openWeight, hopen, (openWeight_eq_some hw).2] using hlt.le
    | false =>
      rw [pass_of_fits hw ho, settled_of_open hopen, settled_of_open (by exact hopen)]
      rfl

/-- Whoever is limited in a pass is limited below the level of the pass. -/
theorem LimitedBelow.pass {h : Holding α} {pool total : α} (ht : 0 < total)
    (hb : h.LimitedBelow (pool / total)) : (h.pass pool total).LimitedBelow (pool / total) := by
  cases hw : h.openWeight with
  | none => rwa [pass_of_closed hw]
  | some w =>
    obtain ⟨hopen, hweight⟩ := openWeight_eq_some hw
    cases ho : h.overflows pool total with
    | true =>
      have hlt := limit_lt_portion hw ho
      rw [portion_eq_level_mul ht] at hlt
      rw [pass_of_overflows ho]
      exact fun _ => ⟨w, hweight, hlt⟩
    | false =>
      rw [pass_of_fits hw ho]
      exact hb

theorem LimitedBelow.mono {h : Holding α} (hs : h.Sound) {level level' : α}
    (hle : level ≤ level') (hb : h.LimitedBelow level) : h.LimitedBelow level' := by
  intro hl
  obtain ⟨w, hw, hlt⟩ := hb hl
  exact ⟨w, hw, hlt.trans_le (mul_le_mul_of_nonneg_right hle (hs.weight_nonneg w hw))⟩

/-- A pass that does not limit a holding leaves it at the level of the pass. -/
theorem AtLevel.pass {h : Holding α} (hs : h.Sound) {pool total : α} (ht : 0 < total)
    (hb : h.LimitedBelow (pool / total)) (ho : h.overflows pool total = false) :
    (h.pass pool total).AtLevel (pool / total) := by
  cases hw : h.openWeight with
  | some w =>
    obtain ⟨hopen, hweight⟩ := openWeight_eq_some hw
    have hle := portion_le_of_fits hw ho
    rw [pass_of_fits hw ho]
    rw [portion_eq_level_mul ht] at hle ⊢
    refine ⟨fun v hv => ?_, fun v hv => ?_⟩ <;>
      obtain rfl : w = v := Option.some.inj (hweight.symm.trans hv)
    · exact (min_eq_right hle).symm
    · exact iff_of_false (by simp [hopen]) (not_lt.2 hle)
  | none =>
    -- What is closed was limited in an earlier pass, or has no weight at all.
    rw [pass_of_closed hw]
    cases hl : h.limited with
    | true =>
      obtain ⟨w, hweight, hlt⟩ := hb hl
      refine ⟨fun v hv => ?_, fun v hv => ?_⟩ <;>
        obtain rfl : w = v := Option.some.inj (hweight.symm.trans hv)
      · rw [hs.share_of_limited hl, min_eq_left hlt.le]
      · exact iff_of_true hl hlt
    | false =>
      have hnone : h.weight = none := (openWeight_eq_none hw).resolve_left (by simp [hl])
      exact ⟨fun v hv => by simp [hnone] at hv, fun v hv => by simp [hnone] at hv⟩

end Holding

theorem openTotal_eq_sum (hs : List (Holding α)) :
    openTotal hs = (hs.map Holding.openPart).sum := by
  rw [openTotal, Quantity.total_eq_sum, sum_filterMap]
  rfl

/-- What a pass gives for a weight of one. -/
def passLevel (pool : α) (hs : List (Holding α)) : α :=
  openPool pool hs / openTotal hs

/-- What is settled and what the open weights get at the level of a pass make up the pool. -/
theorem sum_settled_add_level {pool : α} {hs : List (Holding α)}
    (hle : (hs.map Holding.settled).sum ≤ pool) (ht : 0 < openTotal hs) :
    (hs.map Holding.settled).sum + passLevel pool hs * (hs.map Holding.openPart).sum = pool := by
  rw [← openTotal_eq_sum, passLevel, div_mul_cancel₀ _ ht.ne', openPool_eq hle, add_sub_cancel]

/-- From one pass to the next the level does not fall. -/
theorem passLevel_le_pass {pool : α} {hs : List (Holding α)} (hsound : ∀ h ∈ hs, h.Sound)
    (hle : (hs.map Holding.settled).sum ≤ pool) (ht : 0 < openTotal hs)
    (ht' : 0 < openTotal (hs.map (Holding.pass (openPool pool hs) (openTotal hs)))) :
    passLevel pool hs
      ≤ passLevel pool (hs.map (Holding.pass (openPool pool hs) (openTotal hs))) := by
  let next := hs.map (Holding.pass (openPool pool hs) (openTotal hs))
  have hgive : (next.map Holding.settled).sum + passLevel pool hs * openTotal next ≤ pool := by
    calc (next.map Holding.settled).sum + passLevel pool hs * openTotal next
        = (next.map fun h => h.settled + passLevel pool hs * h.openPart).sum := by
          rw [openTotal_eq_sum, List.sum_map_add, List.sum_map_mul_left]
      _ ≤ (hs.map fun h => h.settled + passLevel pool hs * h.openPart).sum := by
          rw [List.map_map]
          exact List.sum_le_sum fun h _ => h.settled_add_openPart_pass_le ht
      _ = pool := by
          rw [List.sum_map_add, List.sum_map_mul_left, sum_settled_add_level hle ht]
  rw [passLevel.eq_def pool next, le_div_iff₀ ht',
    openPool_eq (sum_settled_pass_le hsound hle ht)]
  linarith

/-- Passes that come to an end leave everybody who competes limited, or they leave nothing over and
everybody at one level. -/
theorem passes_atLevel {pool : α} (fuel : ℕ) {hs : List (Holding α)} {d : Distribution α}
    (h : passes pool fuel hs = .ok d) (hsound : ∀ h ∈ hs, h.Sound)
    (hle : (hs.map Holding.settled).sum ≤ pool)
    (hbelow : 0 < openTotal hs → ∀ h ∈ hs, h.LimitedBelow (passLevel pool hs)) :
    (∀ h ∈ d.holdings, h.Competes → h.limited = true) ∨
      d.unallocated = 0 ∧ ∃ level, 0 ≤ level ∧ ∀ h ∈ d.holdings, h.AtLevel level := by
  -- Whoever is limited was limited below the level of that pass, and later levels are not lower.
  induction fuel generalizing hs with
  | zero => cases h
  | succ fuel ih =>
    simp only [passes] at h
    split at h
    · next ht =>
      cases h
      exact .inl (limited_of_competes hsound ht)
    · next ht =>
      have ht : 0 < openTotal hs := not_le.1 ht
      split at h
      · have hsound' : ∀ h ∈ hs.map (Holding.pass (openPool pool hs) (openTotal hs)), h.Sound :=
          sound_map_pass hsound
        refine ih h hsound' (sum_settled_pass_le hsound hle ht) fun ht' => ?_
        intro x hx
        refine Holding.LimitedBelow.mono (hsound' x hx) (passLevel_le_pass hsound hle ht ht') ?_
        obtain ⟨y, hy, rfl⟩ := List.mem_map.1 hx
        exact (hbelow ht y hy).pass ht
      · next hfits =>
        cases h
        refine .inr ⟨rfl, passLevel pool hs, div_nonneg (openPool_nonneg pool hs) ht.le, ?_⟩
        refine List.forall_mem_map.2 fun x hx => ?_
        exact Holding.AtLevel.pass (hsound x hx) ht (hbelow ht x hx)
          (by simpa using List.any_eq_false.1 (by simpa using hfits) x hx)

section Distribution

variable {pool : α} {claims : List (Claim α)}

theorem distribute_atLevel {d : Distribution α} (hpool : 0 ≤ pool)
    (hw : ∀ c ∈ claims, ∀ w, c.weight = some w → 0 ≤ w) (hl : ∀ c ∈ claims, 0 ≤ c.limit)
    (h : distribute pool claims = .ok d) :
    (∀ h ∈ d.holdings, h.Competes → h.limited = true) ∨
      d.unallocated = 0 ∧ ∃ level, 0 ≤ level ∧ ∀ h ∈ d.holdings, h.AtLevel level := by
  refine passes_atLevel maxLimitPasses h (sound_map_start hw hl) ?_ ?_
  · rwa [sum_settled_start]
  · intro _
    exact List.forall_mem_map.2 fun c _ hlimited => by cases hlimited

/-- Together, holdings have at most what their claims can take. -/
theorem sum_share_le_capacity {hs : List (Holding α)} (hsound : ∀ h ∈ hs, h.Sound) :
    (hs.map Holding.share).sum ≤ totalCapacity (hs.map Holding.toClaim) := by
  rw [totalCapacity, List.map_map]
  refine List.sum_le_sum fun h hmem => ?_
  by_cases hc : h.Competes
  · exact (hsound h hmem).share_le_limit.trans_eq (Holding.capacity_of_competes hc).symm
  · exact ((hsound h hmem).share_eq_zero hc).le.trans_eq (Holding.capacity_of_idle hc).symm

theorem Holding.Sound.share_eq_capacity {h : Holding α} (hs : h.Sound)
    (hlimited : h.Competes → h.limited = true) : h.share = h.capacity := by
  by_cases hc : h.Competes
  · rw [hs.share_of_limited (hlimited hc), Holding.capacity_of_competes hc]
  · rw [hs.share_eq_zero hc, Holding.capacity_of_idle hc]

/-- Where everybody who competes is limited, the claims have all they can take. -/
theorem sum_share_eq_capacity {hs : List (Holding α)} (hsound : ∀ h ∈ hs, h.Sound)
    (hlimited : ∀ h ∈ hs, h.Competes → h.limited = true) :
    (hs.map Holding.share).sum = totalCapacity (hs.map Holding.toClaim) := by
  rw [totalCapacity, List.map_map]
  refine congrArg List.sum (List.map_congr_left fun h hmem => ?_)
  exact (hsound h hmem).share_eq_capacity (hlimited h hmem)

/-- Nobody can take what the pool has in excess of the capacity of the claims. -/
theorem distribute_unallocated {d : Distribution α} (hpool : 0 ≤ pool)
    (hw : ∀ c ∈ claims, ∀ w, c.weight = some w → 0 ≤ w) (hl : ∀ c ∈ claims, 0 ≤ c.limit)
    (h : distribute pool claims = .ok d) : d.unallocated = max (pool - totalCapacity claims) 0 := by
  have hd := distribute_accounts hpool hw hl h
  have hsum := hd.sum_eq
  have hrest := hd.unallocated_nonneg
  rcases distribute_atLevel hpool hw hl h with hlimited | ⟨hzero, -⟩
  · rw [sum_share_eq_capacity hd.sound hlimited, hd.claims_eq] at hsum
    rw [max_eq_left] <;> linarith
  · have hle := sum_share_le_capacity hd.sound
    rw [hd.claims_eq] at hle
    rw [hzero, max_eq_right]
    linarith

end Distribution

/-- A pool that is exhausted but for the tolerance: everybody who competes has the limit. -/
structure Exhausted (pool : α) (hs : List (Holding α)) : Prop where
  limited : ∀ h ∈ hs, h.Competes → h.limited = true ∧ h.share = h.limit
  capacity_le : totalCapacity (hs.map Holding.toClaim) ≤ pool
  le_capacity : pool - Quantity.shareTolerance ≤ totalCapacity (hs.map Holding.toClaim)

/-- A pool that is shared out at a level. -/
structure Levelled (pool level : α) (hs : List (Holding α)) : Prop where
  level_nonneg : 0 ≤ level
  atLevel : ∀ h ∈ hs, h.AtLevel level
  sum_eq : (hs.map Holding.share).sum = pool

/-- A pool that is shared out under limits is exhausted, or it is shared out at one level. Whoever
does not compete has nothing and is not limited. -/
theorem limitShares_levels {pool : α} {claims : List (Claim α)} {hs : List (Holding α)}
    (hpool : 0 ≤ pool) (hw : ∀ c ∈ claims, ∀ w, c.weight = some w → 0 ≤ w)
    (hl : ∀ c ∈ claims, 0 ≤ c.limit) (h : limitShares pool claims = .ok hs) :
    hs.map Holding.toClaim = claims ∧
      (Exhausted pool hs ∨ ∃ level, Levelled pool level hs) ∧
      ∀ h ∈ hs, ¬h.Competes → h.share = 0 ∧ h.limited = false := by
  obtain ⟨d, hd, h⟩ := bind_eq_ok.1 h
  split at h
  · next hrest =>
    cases h
    have haccounts := distribute_accounts hpool hw hl hd
    have hsum := haccounts.sum_eq
    have hnonneg := haccounts.unallocated_nonneg
    refine ⟨haccounts.claims_eq, ?_, fun x hx hc => ⟨(haccounts.sound x hx).share_eq_zero hc, ?_⟩⟩
    · rcases distribute_atLevel hpool hw hl hd with hlimited | ⟨hzero, level, hlevel, hat⟩
      · rw [sum_share_eq_capacity haccounts.sound hlimited] at hsum
        refine .inl ⟨fun x hx hc => ?_, by linarith, by linarith⟩
        exact ⟨hlimited x hx hc, (haccounts.sound x hx).share_of_limited (hlimited x hx hc)⟩
      · rw [hzero, add_zero] at hsum
        exact .inr ⟨level, hlevel, hat, hsum⟩
    · by_contra hlimited
      exact hc ((haccounts.sound x hx).competes_of_limited (by simpa using hlimited))
  · cases h

/-- Three claims of which the second reaches its limit only after the first, and two that do not
compete. -/
def cascadingClaims : List (Claim ℚ) :=
  [⟨some 6, 2 / 5⟩, ⟨some 3, 7 / 20⟩, ⟨some 1, 1⟩, ⟨some 0, 1⟩, ⟨none, 1⟩]

/-- What the claims get out of a pool of one: the level is a quarter. -/
def cascadingHoldings : List (Holding ℚ) :=
  List.zipWith (fun c x => { toClaim := c, share := x.1, limited := x.2 }) cascadingClaims
    [(2 / 5, true), (7 / 20, true), (1 / 4, false), (0, false), (0, false)]

theorem cascadingHoldings_levels :
    (0 ≤ (1 : ℚ) ∧ (∀ c ∈ cascadingClaims, ∀ w, c.weight = some w → 0 ≤ w) ∧
        (∀ c ∈ cascadingClaims, 0 ≤ c.limit) ∧
        limitShares 1 cascadingClaims = .ok cascadingHoldings) ∧
      cascadingHoldings.map Holding.toClaim = cascadingClaims ∧
      (Exhausted 1 cascadingHoldings ∨ ∃ level, Levelled 1 level cascadingHoldings) ∧
      ∀ h ∈ cascadingHoldings, ¬h.Competes → h.share = 0 ∧ h.limited = false := by
  have hpool : 0 ≤ (1 : ℚ) := by norm_num
  have hw : ∀ c ∈ cascadingClaims, ∀ w, c.weight = some w → 0 ≤ w := by simp [cascadingClaims]
  have hl : ∀ c ∈ cascadingClaims, 0 ≤ c.limit := by
    simp only [cascadingClaims, List.forall_mem_cons]
    norm_num
  have h : limitShares 1 cascadingClaims = .ok cascadingHoldings := by with_unfolding_all rfl
  exact ⟨⟨hpool, hw, hl, h⟩, limitShares_levels hpool hw hl h⟩

end NestedLogit
