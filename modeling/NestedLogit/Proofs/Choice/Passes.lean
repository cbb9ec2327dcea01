import NestedLogit.Proofs.Quantity.Exact
import NestedLogit.Proofs.Choice.Awards

/-!
# What the passes keep

The passes of sharing under capacity limits neither lose nor invent any part of the pool. A pass
takes what limited holdings have as settled and lets the others bid for the rest; what becomes
settled in the pass is never more than what was bid for.

## Main definitions

- `Holding.Sound` — what a holding keeps from pass to pass
- `Distribution.Accounts` — what the passes end with, when they end

## Main statements

- `distribute_accounts` — the shares and the unallocated part add up to the pool
-/

namespace NestedLogit

variable {α : Type} [ExactQuantity α]

/-- A missing value counts as zero in a sum. -/
theorem sum_filterMap {β : Type} (f : β → Option α) (xs : List β) :
    (xs.filterMap f).sum = (xs.map fun x => (f x).getD 0).sum := by
  induction xs with
  | nil => rfl
  | cons x xs ih => cases hx : f x <;> simp [hx, ih]

/-- Portions of a pool are not negative. -/
theorem portion_nonneg {pool total weight : α} (hp : 0 ≤ pool) (hw : 0 ≤ weight) :
    0 ≤ portion pool total weight := by
  unfold portion
  split
  · positivity
  · exact le_rfl

/-- The portions of weights are proportional to the weights. -/
theorem sum_map_portion {pool total : α} (ht : 0 < total) (ws : List α) :
    (ws.map (portion pool total)).sum = pool * ws.sum / total := by
  induction ws with
  | nil => simp
  | cons w ws ih =>
    rw [List.map_cons, List.sum_cons, List.sum_cons, ih, portion, if_pos ht]
    ring

namespace Holding

/-- Whether a holding takes part with a positive weight. -/
def Competes (h : Holding α) : Prop :=
  ∃ w, h.weight = some w ∧ 0 < w

/-- What a holding keeps from pass to pass: its share stays within its limit, is exactly the limit
once that binds, and is zero unless the holding competes. -/
structure Sound (h : Holding α) : Prop where
  weight_nonneg : ∀ w, h.weight = some w → 0 ≤ w
  share_nonneg : 0 ≤ h.share
  share_le_limit : h.share ≤ h.limit
  share_of_limited : h.limited = true → h.share = h.limit
  competes_of_limited : h.limited = true → h.Competes
  competes_of_share_pos : 0 < h.share → h.Competes

/-- The part of the share that later passes do not change. -/
def settled (h : Holding α) : α :=
  h.limitedShare.getD 0

/-- What an open holding asks for in a pass. -/
def bid (pool total : α) (h : Holding α) : α :=
  (h.openWeight.map (portion pool total)).getD 0

/-- The start is sound for weights and limits that are not negative. -/
theorem sound_start {c : Claim α} (hw : ∀ w, c.weight = some w → 0 ≤ w) (hl : 0 ≤ c.limit) :
    (start c).Sound where
  weight_nonneg := hw
  share_nonneg := le_rfl
  share_le_limit := hl
  share_of_limited h := by cases h
  competes_of_limited h := by cases h
  competes_of_share_pos h := absurd h (lt_irrefl _)

theorem settled_of_limited {h : Holding α} (hl : h.limited = true) : h.settled = h.share := by
  simp [settled, limitedShare, hl]

theorem settled_of_open {h : Holding α} (hl : h.limited = false) : h.settled = 0 := by
  simp [settled, limitedShare, hl]

theorem bid_of_openWeight {h : Holding α} {pool total w : α} (hw : h.openWeight = some w) :
    h.bid pool total = portion pool total w := by
  simp [bid, hw]

theorem bid_of_closed {h : Holding α} {pool total : α} (hw : h.openWeight = none) :
    h.bid pool total = 0 := by
  simp [bid, hw]

theorem pass_of_closed {h : Holding α} {pool total : α} (hw : h.openWeight = none) :
    h.pass pool total = h := by
  simp [pass, hw]

theorem pass_of_overflows {h : Holding α} {pool total : α} (ho : h.overflows pool total = true) :
    h.pass pool total = { h with share := h.limit, limited := true } := by
  cases hw : h.openWeight with
  | none => simp [overflows, hw] at ho
  | some w => simp [pass, hw, ho]

theorem pass_of_fits {h : Holding α} {pool total w : α} (hw : h.openWeight = some w)
    (ho : h.overflows pool total = false) :
    h.pass pool total = { h with share := portion pool total w } := by
  simp [pass, hw, ho]

omit [ExactQuantity α] in
/-- An open holding is not limited and takes part with its weight. -/
theorem openWeight_eq_some {h : Holding α} {w : α} (hw : h.openWeight = some w) :
    h.limited = false ∧ h.weight = some w := by
  unfold openWeight at hw
  split at hw
  · cases hw
  · next hl => exact ⟨by simpa using hl, hw⟩

omit [ExactQuantity α] in
/-- A holding that is not open is limited or takes no part. -/
theorem openWeight_eq_none {h : Holding α} (hw : h.openWeight = none) :
    h.limited = true ∨ h.weight = none := by
  unfold openWeight at hw
  split at hw
  · next hl => exact .inl hl
  · exact .inr hw

/-- Where the limit is exceeded, the portion is larger than the limit. -/
theorem limit_lt_of_overflows {h : Holding α} {pool total : α}
    (ho : h.overflows pool total = true) :
    ∃ w, h.openWeight = some w ∧ h.limit < portion pool total w := by
  unfold overflows at ho
  split at ho
  · next w hw => exact ⟨w, hw, by simpa using ho⟩
  · cases ho

theorem limit_lt_portion {h : Holding α} {pool total w : α} (hw : h.openWeight = some w)
    (ho : h.overflows pool total = true) : h.limit < portion pool total w := by
  simpa [overflows, hw] using ho

theorem portion_le_of_fits {h : Holding α} {pool total w : α} (hw : h.openWeight = some w)
    (ho : h.overflows pool total = false) : portion pool total w ≤ h.limit := by
  simpa [overflows, hw] using ho

namespace Sound

theorem limit_nonneg {h : Holding α} (hs : h.Sound) : 0 ≤ h.limit :=
  hs.share_nonneg.trans hs.share_le_limit

/-- Only a competing holding asks for anything. -/
theorem competes_of_portion_pos {h : Holding α} {pool total w : α} (hs : h.Sound)
    (hw : h.weight = some w) (hp : 0 < portion pool total w) : h.Competes := by
  refine ⟨w, hw, (hs.weight_nonneg w hw).lt_of_ne ?_⟩
  rintro rfl
  simp [portion] at hp

/-- A pass keeps holdings sound. -/
theorem pass {h : Holding α} (hs : h.Sound) {pool : α} (hp : 0 ≤ pool) (total : α) :
    (h.pass pool total).Sound := by
  cases hw : h.openWeight with
  | none => rwa [pass_of_closed hw]
  | some w =>
    obtain ⟨hopen, hweight⟩ := openWeight_eq_some hw
    cases ho : h.overflows pool total with
    | true =>
      have hlt := limit_lt_portion hw ho
      have hc := hs.competes_of_portion_pos hweight (hs.limit_nonneg.trans_lt hlt)
      rw [pass_of_overflows ho]
      exact ⟨hs.weight_nonneg, hs.limit_nonneg, le_rfl, fun _ => rfl, fun _ => hc, fun _ => hc⟩
    | false =>
      rw [pass_of_fits hw ho]
      refine ⟨hs.weight_nonneg, portion_nonneg hp (hs.weight_nonneg w hweight),
        portion_le_of_fits hw ho, ?_, hs.competes_of_limited, hs.competes_of_portion_pos hweight⟩
      intro hl
      exact absurd hl (by simp [hopen])

/-- A holding that neither is limited nor competes has nothing. -/
theorem share_eq_zero {h : Holding α} (hs : h.Sound) (hc : ¬h.Competes) : h.share = 0 :=
  le_antisymm (not_lt.1 fun hp => hc (hs.competes_of_share_pos hp)) hs.share_nonneg

theorem share_of_weightless {h : Holding α} (hs : h.Sound) (hw : h.weight = none) :
    h.share = 0 := by
  apply hs.share_eq_zero
  rintro ⟨w, hsome, -⟩
  rw [hw] at hsome
  cases hsome

/-- What is settled by a pass was settled before or was bid for. -/
theorem settled_pass_le {h : Holding α} (hs : h.Sound) {pool : α} (hp : 0 ≤ pool) (total : α) :
    (h.pass pool total).settled ≤ h.settled + h.bid pool total := by
  cases hw : h.openWeight with
  | none => rw [pass_of_closed hw, bid_of_closed hw, add_zero]
  | some w =>
    obtain ⟨hopen, hweight⟩ := openWeight_eq_some hw
    rw [settled_of_open hopen, bid_of_openWeight hw, zero_add]
    cases ho : h.overflows pool total with
    | true =>
      have hlt := limit_lt_portion hw ho
      rw [pass_of_overflows ho, settled_of_limited rfl]
      exact hlt.le
    | false =>
      have hfits : (h.pass pool total).limited = false := by rw [pass_of_fits hw ho]; exact hopen
      rw [settled_of_open hfits]
      exact portion_nonneg hp (hs.weight_nonneg w hweight)

/-- Where the limit is not exceeded, a pass gives what was settled and what is bid for. -/
theorem share_pass {h : Holding α} (hs : h.Sound) {pool total : α}
    (ho : h.overflows pool total = false) :
    (h.pass pool total).share = h.settled + h.bid pool total := by
  cases hw : h.openWeight with
  | some w =>
    rw [pass_of_fits hw ho, settled_of_open (openWeight_eq_some hw).1, bid_of_openWeight hw,
      zero_add]
  | none =>
    rw [pass_of_closed hw, bid_of_closed hw, add_zero]
    cases hl : h.limited with
    | true => exact (settled_of_limited hl).symm
    | false =>
      have hnone : h.weight = none := (openWeight_eq_none hw).resolve_left (by simp [hl])
      rw [settled_of_open hl]
      exact hs.share_of_weightless hnone

end Sound

end Holding

/-- The part of the pool that limited holdings have. -/
theorem total_limitedShare (hs : List (Holding α)) :
    Quantity.total (hs.filterMap Holding.limitedShare) = (hs.map Holding.settled).sum := by
  rw [Quantity.total_eq_sum, sum_filterMap]
  rfl

/-- The open holdings together bid for exactly what is shared out. -/
theorem sum_bid {pool : α} {hs : List (Holding α)} (ht : 0 < openTotal hs) :
    (hs.map (Holding.bid pool (openTotal hs))).sum = pool := by
  have hbid : (hs.map (Holding.bid pool (openTotal hs))).sum
      = ((hs.filterMap Holding.openWeight).map (portion pool (openTotal hs))).sum := by
    rw [List.map_filterMap, sum_filterMap]
    rfl
  rw [hbid, sum_map_portion ht]
  rw [openTotal, Quantity.total_eq_sum] at ht ⊢
  exact mul_div_cancel_right₀ pool ht.ne'

theorem openPool_nonneg (pool : α) (hs : List (Holding α)) : 0 ≤ openPool pool hs := by
  rw [openPool, Quantity.larger_eq_max]
  exact le_max_right _ _

/-- A pass keeps all holdings sound. -/
theorem sound_map_pass {pool : α} {hs : List (Holding α)} (hsound : ∀ h ∈ hs, h.Sound) :
    ∀ h ∈ hs.map (Holding.pass (openPool pool hs) (openTotal hs)), h.Sound :=
  List.forall_mem_map.2 fun h hmem => (hsound h hmem).pass (openPool_nonneg pool hs) _

/-- As long as no more is settled than there is, the rest is what is not settled. -/
theorem openPool_eq {pool : α} {hs : List (Holding α)}
    (h : (hs.map Holding.settled).sum ≤ pool) :
    openPool pool hs = pool - (hs.map Holding.settled).sum := by
  rw [openPool, Quantity.larger_eq_max, total_limitedShare, max_eq_left (sub_nonneg.2 h)]

/-- No open weight exceeds the open total. -/
theorem openWeight_le_openTotal {hs : List (Holding α)} (hsound : ∀ h ∈ hs, h.Sound)
    {h : Holding α} (hmem : h ∈ hs) {w : α} (hw : h.openWeight = some w) : w ≤ openTotal hs := by
  have hnonneg : ∀ v ∈ hs.filterMap Holding.openWeight, 0 ≤ v := by
    intro v hv
    obtain ⟨h', hmem', hv'⟩ := List.mem_filterMap.1 hv
    exact (hsound h' hmem').weight_nonneg v (Holding.openWeight_eq_some hv').2
  rw [openTotal, Quantity.total_eq_sum]
  exact List.single_le_sum hnonneg w (List.mem_filterMap.2 ⟨h, hmem, hw⟩)

/-- Where no open weight is left, everybody who competes is limited. -/
theorem limited_of_competes {hs : List (Holding α)} (hsound : ∀ h ∈ hs, h.Sound)
    (ht : openTotal hs ≤ 0) : ∀ h ∈ hs, h.Competes → h.limited = true := by
  rintro h hmem ⟨w, hw, hpos⟩
  by_contra hl
  -- A competing holding that is open would add its weight to the open total.
  have hopen : h.openWeight = some w := by simp [Holding.openWeight, hl, hw]
  have hle := openWeight_le_openTotal hsound hmem hopen
  exact absurd (hle.trans ht) (not_le.2 hpos)

/-- Where no open weight is left, everything is settled. -/
theorem share_eq_settled {hs : List (Holding α)} (hsound : ∀ h ∈ hs, h.Sound)
    (ht : openTotal hs ≤ 0) : ∀ h ∈ hs, h.share = h.settled := by
  intro h hmem
  cases hl : h.limited with
  | true => exact (Holding.settled_of_limited hl).symm
  | false =>
    rw [Holding.settled_of_open hl]
    refine (hsound h hmem).share_eq_zero fun hc => ?_
    rw [limited_of_competes hsound ht h hmem hc] at hl
    cases hl

/-- What the passes end with: sound holdings of the same claims, whose shares and the unallocated
part add up to the pool. -/
structure Distribution.Accounts (pool : α) (claims : List (Claim α)) (d : Distribution α) :
    Prop where
  claims_eq : d.holdings.map Holding.toClaim = claims
  sound : ∀ h ∈ d.holdings, h.Sound
  sum_eq : (d.holdings.map Holding.share).sum + d.unallocated = pool
  unallocated_nonneg : 0 ≤ d.unallocated

theorem Distribution.Accounts.length_eq {pool : α} {claims : List (Claim α)} {d : Distribution α}
    (h : d.Accounts pool claims) : d.holdings.length = claims.length := by
  rw [← h.claims_eq, List.length_map]

/-- A pass settles no more than there is. -/
theorem sum_settled_pass_le {pool : α} {hs : List (Holding α)} (hsound : ∀ h ∈ hs, h.Sound)
    (hle : (hs.map Holding.settled).sum ≤ pool) (ht : 0 < openTotal hs) :
    ((hs.map (Holding.pass (openPool pool hs) (openTotal hs))).map Holding.settled).sum
      ≤ pool := by
  have hrest := openPool_nonneg pool hs
  calc ((hs.map (Holding.pass (openPool pool hs) (openTotal hs))).map Holding.settled).sum
      = (hs.map fun h => (h.pass (openPool pool hs) (openTotal hs)).settled).sum := by
        rw [List.map_map]
        rfl
    _ ≤ (hs.map fun h => h.settled + h.bid (openPool pool hs) (openTotal hs)).sum :=
        List.sum_le_sum fun h hmem => (hsound h hmem).settled_pass_le hrest (openTotal hs)
    _ = (hs.map Holding.settled).sum + openPool pool hs := by rw [List.sum_map_add, sum_bid ht]
    _ = pool := by rw [openPool_eq hle, add_sub_cancel]

/-- The last pass, which limits nobody, gives out the whole pool. -/
theorem sum_share_pass {pool : α} {hs : List (Holding α)} (hsound : ∀ h ∈ hs, h.Sound)
    (hle : (hs.map Holding.settled).sum ≤ pool) (ht : 0 < openTotal hs)
    (hfits : hs.any (Holding.overflows (openPool pool hs) (openTotal hs)) = false) :
    ((hs.map (Holding.pass (openPool pool hs) (openTotal hs))).map Holding.share).sum = pool := by
  have hshare : ∀ h ∈ hs, (h.pass (openPool pool hs) (openTotal hs)).share
      = h.settled + h.bid (openPool pool hs) (openTotal hs) := by
    intro h hmem
    exact (hsound h hmem).share_pass (by simpa using List.any_eq_false.1 hfits h hmem)
  calc ((hs.map (Holding.pass (openPool pool hs) (openTotal hs))).map Holding.share).sum
      = (hs.map fun h => (h.pass (openPool pool hs) (openTotal hs)).share).sum := by
        rw [List.map_map]
        rfl
    _ = (hs.map Holding.settled).sum + openPool pool hs := by
        rw [List.map_congr_left hshare, List.sum_map_add, sum_bid ht]
    _ = pool := by rw [openPool_eq hle, add_sub_cancel]

/-- Passes from sound holdings that settle no more than the pool account for all of it. -/
theorem passes_accounts {pool : α} (fuel : ℕ) {hs : List (Holding α)} {d : Distribution α}
    (h : passes pool fuel hs = .ok d) (hsound : ∀ h ∈ hs, h.Sound)
    (hle : (hs.map Holding.settled).sum ≤ pool) :
    d.Accounts pool (hs.map Holding.toClaim) := by
  -- No pass settles more than the pool, so that there is a rest to be shared out in the next one.
  induction fuel generalizing hs with
  | zero => cases h
  | succ fuel ih =>
    simp only [passes] at h
    split at h
    · next ht =>
      -- Nobody competes for the rest, which stays unallocated.
      cases h
      refine ⟨rfl, hsound, ?_, openPool_nonneg pool hs⟩
      rw [List.map_congr_left (share_eq_settled hsound ht), openPool_eq hle]
      ring
    · next ht =>
      have ht : 0 < openTotal hs := not_le.1 ht
      split at h
      · rw [← map_toClaim_pass (openPool pool hs) (openTotal hs)]
        exact ih h (sound_map_pass hsound) (sum_settled_pass_le hsound hle ht)
      · next hfits =>
        cases h
        refine ⟨map_toClaim_pass _ _ hs, sound_map_pass hsound, ?_, le_rfl⟩
        rw [sum_share_pass hsound hle ht (by simpa using hfits), add_zero]

theorem sound_map_start {claims : List (Claim α)}
    (hw : ∀ c ∈ claims, ∀ w, c.weight = some w → 0 ≤ w) (hl : ∀ c ∈ claims, 0 ≤ c.limit) :
    ∀ h ∈ claims.map Holding.start, h.Sound :=
  List.forall_mem_map.2 fun c hc => Holding.sound_start (hw c hc) (hl c hc)

/-- At the start nothing is settled. -/
theorem sum_settled_start (claims : List (Claim α)) :
    ((claims.map Holding.start).map Holding.settled).sum = 0 := by
  have hzero : (claims.map Holding.start).map Holding.settled = claims.map fun _ => (0 : α) := by
    rw [List.map_map]
    exact List.map_congr_left fun c _ => Holding.settled_of_open rfl
  rw [hzero]
  simp

theorem openPool_start {pool : α} (hpool : 0 ≤ pool) (claims : List (Claim α)) :
    openPool pool (claims.map Holding.start) = pool := by
  rw [openPool_eq (by rwa [sum_settled_start]), sum_settled_start, sub_zero]

/-- Sharing out a pool under limits accounts for all of it. -/
theorem distribute_accounts {pool : α} {claims : List (Claim α)} {d : Distribution α}
    (hpool : 0 ≤ pool) (hw : ∀ c ∈ claims, ∀ w, c.weight = some w → 0 ≤ w)
    (hl : ∀ c ∈ claims, 0 ≤ c.limit) (h : distribute pool claims = .ok d) :
    d.Accounts pool claims := by
  rw [← map_toClaim_start claims]
  refine passes_accounts maxLimitPasses h (sound_map_start hw hl) ?_
  rwa [sum_settled_start]

end NestedLogit
