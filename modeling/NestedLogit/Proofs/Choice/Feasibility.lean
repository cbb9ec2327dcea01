import NestedLogit.Proofs.Choice.Conservation
import NestedLogit.Proofs.Choice.Convergence

/-!
# Which markets can be shared out

A market is infeasible if a limit or a fixed share is no proportion, if fixed shares exceed a limit
or the market, if they are all there is and amount to nothing, or if those who compete for the open
part cannot take it. An allocation fails for no other reason than these, but for one: the number of
passes is bounded, and there are feasible markets for which it is too small.

## Main definitions

- `rivals` — those who compete for the open part of a market
- `Infeasible` — the markets that cannot be shared out, however many passes are made

## Main statements

- `allocate_fails_iff` — an allocation fails exactly for infeasible markets and where the passes do
  not end
- `steepMarket_refused` — a feasible market for which they do not
-/

namespace NestedLogit

variable {α : Type} [ExactQuantity α]

/-- What free claims leave cannot be shared out if it exceeds the capacity of the priced ones by
more than the tolerance, or if as many of them compete as there are passes. -/
theorem shareLeftover_eq_error {rest : α} {claims : List (Claim α)} (hrest : 0 ≤ rest)
    (hw : ∀ c ∈ claims, ∀ w, c.weight = some w → 0 ≤ w) (hl : ∀ c ∈ claims, 0 ≤ c.limit)
    {e : LimitError α} (h : shareLeftover rest claims = .error e) :
    (Quantity.shareTolerance < rest ∧ Quantity.shareTolerance < max (rest - totalCapacity claims) 0)
      ∨ (e = .notConverged ∧ maxLimitPasses ≤ claims.countP Claim.competes) := by
  unfold shareLeftover at h
  split at h
  · next hlarge =>
    rcases bind_eq_error.1 h with hd | ⟨d, hd, h⟩
    · exact .inr (distribute_eq_error hrest hw hl hd)
    · split at h
      · cases h
      · next hmuch =>
        refine .inl ⟨hlarge, ?_⟩
        rw [← distribute_unallocated hrest hw hl hd]
        exact not_le.1 hmuch
  · cases h

/-- What is left over exceeds the tolerance if the pool exceeds the capacity by more than that. -/
theorem tolerance_lt_leftover_iff {pool : α} {free priced : List (Claim α)}
    (hpriced : 0 ≤ totalCapacity priced) :
    Quantity.shareTolerance < leftover pool free priced ↔
      totalCapacity free + totalCapacity priced < pool - Quantity.shareTolerance := by
  have htol : (0 : α) < Quantity.shareTolerance := Quantity.shareTolerance_pos
  unfold leftover
  dsimp only
  split
  · next hrest =>
    have hfree : Quantity.shareTolerance < pool - totalCapacity free :=
      (lt_max_iff.1 hrest).resolve_right htol.not_gt
    rw [max_eq_left (htol.trans hfree).le, lt_max_iff, or_iff_left htol.not_gt]
    constructor <;> intro h <;> linarith
  · next hrest =>
    refine iff_of_false hrest fun h => hrest (lt_max_of_lt_left ?_)
    linarith

section Shares

variable {free priced : Contender α → Option α} {cs : List (Contender α)}

/-- Whether a contender has a weight. -/
def Contender.hasWeight (free priced : Contender α → Option α) (c : Contender α) : Bool :=
  (free c).isSome || (priced c).isSome

theorem Contender.capacity_claim {weight : Contender α → Option α}
    (hw : ∀ c w, weight c = some w → 0 < w) (c : Contender α) :
    (c.claim (weight c)).capacity = if (weight c).isSome then c.capacityLimit else 0 := by
  cases h : weight c with
  | none => rfl
  | some w => exact if_pos (hw c w h)

/-- The claims of a market can take the limits of those who have a weight. -/
theorem totalCapacity_claims (hw : Weighing free priced) (cs : List (Contender α)) :
    totalCapacity (cs.map fun c => c.claim (free c))
        + totalCapacity (cs.map fun c => c.claim (priced c))
      = ((cs.filter (Contender.hasWeight free priced)).map Contender.capacityLimit).sum := by
  have hcapacity : ∀ c : Contender α,
      (c.claim (free c)).capacity + (c.claim (priced c)).capacity
        = if c.hasWeight free priced then c.capacityLimit else 0 := by
    intro c
    rw [Contender.capacity_claim hw.free_pos, Contender.capacity_claim hw.priced_pos]
    cases hf : free c with
    | none => simp [Contender.hasWeight, hf]
    | some w => simp [Contender.hasWeight, hf, hw.priced_of_free c w hf]
  calc totalCapacity (cs.map fun c => c.claim (free c))
        + totalCapacity (cs.map fun c => c.claim (priced c))
      = (cs.map fun c => (c.claim (free c)).capacity + (c.claim (priced c)).capacity).sum := by
        rw [totalCapacity, totalCapacity, List.map_map, List.map_map, List.sum_map_add]
        rfl
    _ = (cs.map fun c => if c.hasWeight free priced then c.capacityLimit else 0).sum := by
        rw [List.map_congr_left fun c _ => hcapacity c]
    _ = ((cs.filter (Contender.hasWeight free priced)).map Contender.capacityLimit).sum := by
        rw [List.sum_map_ite]
        simp

theorem countP_competes_le {weight : Contender α → Option α} {p : Contender α → Bool}
    (hp : ∀ c, (weight c).isSome = true → p c = true) (cs : List (Contender α)) :
    (cs.map fun c => c.claim (weight c)).countP Claim.competes ≤ (cs.filter p).length := by
  rw [List.countP_map, ← List.countP_eq_length_filter]
  refine List.countP_mono_left fun c _ hc => hp c ?_
  cases h : weight c with
  | none => simp [Claim.competes, Contender.claim, h] at hc
  | some w => rfl

theorem totalCapacity_claims_nonneg (weight : Contender α → Option α)
    (hc : ∀ c ∈ cs, c.Admissible) :
    0 ≤ totalCapacity (cs.map fun c => c.claim (weight c)) := by
  refine List.sum_nonneg ?_
  simp only [List.map_map, List.forall_mem_map, Function.comp_apply]
  exact fun c hmem => Claim.capacity_nonneg (hc c hmem).limit_nonneg

/-- How sharing out an open market ends: with awards if those who have a weight can take it but for
the tolerance, and with an error if they cannot or if the passes do not end. -/
theorem shareOpenMarket_cases (hw : Weighing free priced) (hc : ∀ c ∈ cs, c.Admissible) :
    (∃ awards, shareOpenMarket cs free priced = .ok awards ∧
        openMarket cs - Quantity.shareTolerance ≤
          ((cs.filter (Contender.hasWeight free priced)).map Contender.capacityLimit).sum) ∨
      (∃ e, shareOpenMarket cs free priced = .error e ∧
        ((cs.filter (Contender.hasWeight free priced)).map Contender.capacityLimit).sum
          < openMarket cs - Quantity.shareTolerance) ∨
      shareOpenMarket cs free priced = .error (.limits .notConverged) ∧
        maxLimitPasses ≤ (cs.filter (Contender.hasWeight free priced)).length := by
  obtain ⟨hfw, hfl⟩ := sound_claims hw.free_pos hc
  obtain ⟨hpw, hpl⟩ := sound_claims hw.priced_pos hc
  have hleft : Quantity.shareTolerance < leftover (openMarket cs)
        (cs.map fun c => c.claim (free c)) (cs.map fun c => c.claim (priced c)) ↔
      ((cs.filter (Contender.hasWeight free priced)).map Contender.capacityLimit).sum
        < openMarket cs - Quantity.shareTolerance := by
    rw [tolerance_lt_leftover_iff (totalCapacity_claims_nonneg priced hc),
      totalCapacity_claims hw]
  cases h : shareOpenMarket cs free priced with
  | ok awards =>
    obtain ⟨hs, rest, -, -, -, -, hrest, rfl⟩ := shareOpenMarket_eq_ok hw hc h
    exact .inl ⟨awards, rfl, not_lt.1 fun hlt => absurd hrest (not_le.2 (hleft.2 hlt))⟩
  | error e =>
    refine .inr ?_
    have hcount : ∀ weight : Contender α → Option α,
        (∀ c, (weight c).isSome = true → c.hasWeight free priced = true) →
        maxLimitPasses ≤ (cs.map fun c => c.claim (weight c)).countP Claim.competes →
        maxLimitPasses ≤ (cs.filter (Contender.hasWeight free priced)).length :=
      fun weight hweight hmany => hmany.trans (countP_competes_le hweight cs)
    obtain ⟨e', he, rfl⟩ := mapError_eq_error.1 h
    rcases bind_eq_error.1 he with hfirst | ⟨first, hfirst, he⟩
    · -- The free contenders are not done.
      obtain ⟨rfl, hmany⟩ := distribute_eq_error (openMarket_nonneg cs) hfw hfl hfirst
      exact .inr ⟨rfl, hcount free (fun c hc => by simp [Contender.hasWeight, hc]) hmany⟩
    · have hnonneg := (distribute_accounts (openMarket_nonneg cs) hfw hfl hfirst).unallocated_nonneg
      have hunallocated := distribute_unallocated (openMarket_nonneg cs) hfw hfl hfirst
      rcases bind_eq_error.1 he with hsecond | ⟨_, _, he⟩
      · -- The priced contenders cannot take what is left, or they are not done.
        rcases shareLeftover_eq_error hnonneg hpw hpl hsecond with ⟨hlarge, hrest⟩ | ⟨rfl, hmany⟩
        · refine .inl ⟨_, rfl, hleft.1 ?_⟩
          rw [leftover, ← hunallocated]
          exact hrest.trans_eq (if_pos hlarge).symm
        · exact .inr ⟨rfl, hcount priced (fun c hc => by simp [Contender.hasWeight, hc]) hmany⟩
      · cases he

end Shares

/-- Whether a contender has a logit weight, among the free or among the priced ones. -/
def Contender.isEligible (c : Contender α) : Bool :=
  c.hasWeight Contender.freeWeight Contender.pricedWeight

/-- Those who compete for the open part of a market: everybody with a logit weight or, if there is
nobody and more than the tolerance is open, everybody without a fixed share. -/
def rivals (cs : List (Contender α)) : List (Contender α) :=
  if cs.any Contender.isEligible then cs.filter Contender.isEligible
  else if Quantity.shareTolerance < openMarket cs then cs.filter fun c => c.fixedShare.isNone
  else []

/-- Whether fixed shares are scaled up to the whole market: nobody has a logit weight for the part
that they leave open. -/
def FixedSharesFill (cs : List (Contender α)) : Prop :=
  Quantity.shareTolerance < openMarket cs ∧ cs.any Contender.isEligible = false ∧ 0 < fixedTotal cs

/-- The reasons for which a market cannot be shared out. -/
inductive Infeasible (cs : List (Contender α)) : Prop
  | limitOutside (c : Contender α) (mem : c ∈ cs)
      (outside : ¬(0 ≤ c.capacityLimit ∧ c.capacityLimit ≤ 1))
  | shareOutside (c : Contender α) (mem : c ∈ cs) (s : α) (fixed : c.fixedShare = some s)
      (outside : ¬(0 ≤ s ∧ s ≤ 1))
  | shareAboveLimit (c : Contender α) (mem : c ∈ cs) (s : α) (fixed : c.fixedShare = some s)
      (above : c.capacityLimit + Quantity.shareTolerance < s)
  | sharesAboveOne (above : 1 + Quantity.shareTolerance < fixedTotal cs)
  | nobodyAvailable (fixed : ∀ c ∈ cs, c.fixedShare.isSome = true) (zero : fixedTotal cs = 0)
  | tooLittleCapacity (unfilled : ¬FixedSharesFill cs)
      (short : ((rivals cs).map Contender.capacityLimit).sum
        < openMarket cs - Quantity.shareTolerance)

theorem fixedTotal_nonneg {cs : List (Contender α)} (hc : ∀ c ∈ cs, c.Admissible) :
    0 ≤ fixedTotal cs := by
  rw [fixedTotal_eq_sum]
  refine List.sum_nonneg (List.forall_mem_map.2 fun c hmem => ?_)
  exact (hc c hmem).fixedPart_nonneg

/-- Somebody competes for the open part of a market if somebody has a logit weight. -/
theorem competingTotal_pos_iff {cs : List (Contender α)} :
    0 < competingTotal cs ↔ cs.any Contender.isEligible = true := by
  have hpos : ∀ w ∈ cs.filterMap Contender.freeWeight ++ cs.filterMap Contender.pricedWeight,
      0 < w := by
    intro w hw
    rcases List.mem_append.1 hw with h | h <;> obtain ⟨c, -, hc⟩ := List.mem_filterMap.1 h
    · exact weighing_logit.free_pos c w hc
    · exact weighing_logit.priced_pos c w hc
  rw [competingTotal, Quantity.total_eq_sum, List.any_eq_true]
  constructor
  · intro hsum
    by_contra hnone
    have hempty :
        cs.filterMap Contender.freeWeight ++ cs.filterMap Contender.pricedWeight = [] := by
      refine List.eq_nil_iff_forall_not_mem.2 fun w hw => hnone ?_
      rcases List.mem_append.1 hw with h | h <;> obtain ⟨c, hmem, hc⟩ := List.mem_filterMap.1 h <;>
        exact ⟨c, hmem, by simp [Contender.isEligible, Contender.hasWeight, hc]⟩
    rw [hempty, List.sum_nil] at hsum
    exact lt_irrefl _ hsum
  · rintro ⟨c, hmem, hc⟩
    refine List.sum_pos _ hpos fun hempty => ?_
    rw [List.append_eq_nil_iff, List.filterMap_eq_nil_iff, List.filterMap_eq_nil_iff] at hempty
    simp [Contender.isEligible, Contender.hasWeight, hempty.1 c hmem, hempty.2 c hmem] at hc

theorem needsFallback_iff {cs : List (Contender α)} :
    needsFallback cs = true ↔
      Quantity.shareTolerance < openMarket cs ∧ cs.any Contender.isEligible = false := by
  rw [needsFallback, Bool.and_eq_true, decide_eq_true_eq, decide_eq_true_eq, ← not_lt,
    competingTotal_pos_iff, Bool.not_eq_true]

/-- Without a fallback the rivals are those with a logit weight. -/
theorem rivals_of_logit {cs : List (Contender α)} (h : needsFallback cs = false) :
    rivals cs = cs.filter (Contender.hasWeight Contender.freeWeight Contender.pricedWeight) := by
  unfold rivals
  split
  · rfl
  · next hnone =>
    rw [if_neg fun hopen => by simp [needsFallback_iff.2 ⟨hopen, by simpa using hnone⟩] at h]
    symm
    rw [List.filter_eq_nil_iff]
    exact fun c hmem hc => hnone (List.any_eq_true.2 ⟨c, hmem, hc⟩)

/-- With a fallback the rivals are those without a fixed share. -/
theorem rivals_of_fallback {cs : List (Contender α)} (h : needsFallback cs = true) :
    rivals cs = cs.filter (Contender.hasWeight (fun _ => none) Contender.equalWeight) := by
  obtain ⟨hopen, hnone⟩ := needsFallback_iff.1 h
  rw [rivals, if_neg (by simp [hnone]), if_pos hopen]
  refine List.filter_congr fun c _ => ?_
  cases hs : c.fixedShare <;> simp [Contender.hasWeight, Contender.equalWeight, hs]

/-- Checks pass, or the market is infeasible. -/
theorem infeasible_of_checkContenders {cs : List (Contender α)} {e : AllocationError α}
    (h : checkContenders cs = .error e) : Infeasible cs := by
  by_contra hfeasible
  have hok : checkContenders cs = .ok () := by
    refine checkContenders_eq_ok_iff.2 ⟨fun c hmem => ?_, ?_⟩
    · have hlimit : 0 ≤ c.capacityLimit ∧ c.capacityLimit ≤ 1 := by
        by_contra hout
        exact hfeasible (.limitOutside c hmem hout)
      have hshare : ∀ s, c.fixedShare = some s → 0 ≤ s ∧ s ≤ 1 := by
        intro s hs
        by_contra hout
        exact hfeasible (.shareOutside c hmem s hs hout)
      refine ⟨hlimit.1, hlimit.2, fun s hs => (hshare s hs).1, fun s hs => (hshare s hs).2, ?_⟩
      intro s hs
      exact not_lt.1 fun habove => hfeasible (.shareAboveLimit c hmem s hs habove)
    · exact not_lt.1 fun habove => hfeasible (.sharesAboveOne habove)
  cases h.symm.trans hok

/-- What is infeasible of a market that passes the checks. -/
theorem infeasible_iff_of_checked {cs : List (Contender α)} (hc : ∀ c ∈ cs, c.Admissible)
    (hle : fixedTotal cs ≤ 1 + Quantity.shareTolerance) :
    Infeasible cs ↔ (∀ c ∈ cs, c.fixedShare.isSome = true) ∧ fixedTotal cs = 0 ∨
      ¬FixedSharesFill cs ∧ ((rivals cs).map Contender.capacityLimit).sum
        < openMarket cs - Quantity.shareTolerance := by
  constructor
  · rintro (⟨c, hmem, h⟩ | ⟨c, hmem, s, hs, h⟩ | ⟨c, hmem, s, hs, h⟩ | h | ⟨hfixed, hzero⟩ |
      ⟨hfill, hshort⟩)
    · exact absurd ⟨(hc c hmem).limit_nonneg, (hc c hmem).limit_le_one⟩ h
    · exact absurd ⟨(hc c hmem).fixed_nonneg s hs, (hc c hmem).fixed_le_one s hs⟩ h
    · exact absurd ((hc c hmem).fixed_le_limit s hs) (not_le.2 h)
    · exact absurd hle (not_le.2 h)
    · exact .inl ⟨hfixed, hzero⟩
    · exact .inr ⟨hfill, hshort⟩
  · rintro (⟨hfixed, hzero⟩ | ⟨hfill, hshort⟩)
    · exact .nobodyAvailable hfixed hzero
    · exact .tooLittleCapacity hfill hshort

/-- How an allocation can end: with an error for an infeasible market, with shares for a feasible
one, or with passes that do not end between as many rivals as there are passes. -/
inductive Ending (cs : List (Contender α)) : Except (AllocationError α) (Allocation α) → Prop
  | refused {e : AllocationError α} (infeasible : Infeasible cs) : Ending cs (.error e)
  | shared {a : Allocation α} (feasible : ¬Infeasible cs) : Ending cs (.ok a)
  | cutOff (many : maxLimitPasses ≤ (rivals cs).length) : Ending cs (.error (.limits .notConverged))

theorem ending_shareOpenMarket {free priced : Contender α → Option α} (hw : Weighing free priced)
    {cs : List (Contender α)} (hc : ∀ c ∈ cs, c.Admissible)
    (hrivals : rivals cs = cs.filter (Contender.hasWeight free priced))
    (hinfeasible : Infeasible cs ↔ ((rivals cs).map Contender.capacityLimit).sum
      < openMarket cs - Quantity.shareTolerance) (f : List (Award α) → Allocation α) :
    Ending cs ((shareOpenMarket cs free priced).map f) := by
  rcases shareOpenMarket_cases hw hc with ⟨awards, h, henough⟩ | ⟨e, h, hshort⟩ | ⟨h, hmany⟩ <;>
    rw [h]
  · refine .shared fun hbad => ?_
    rw [hinfeasible, hrivals] at hbad
    exact absurd henough (not_le.2 hbad)
  · refine .refused ?_
    rwa [hinfeasible, hrivals]
  · exact .cutOff (hrivals ▸ hmany)

theorem ending_allocateByFallback {cs : List (Contender α)} (hc : ∀ c ∈ cs, c.Admissible)
    (hle : fixedTotal cs ≤ 1 + Quantity.shareTolerance)
    (hneeded : needsFallback cs = true) : Ending cs (allocateByFallback cs) := by
  have hinfeasible := infeasible_iff_of_checked hc hle
  obtain ⟨hopen, hnone⟩ := needsFallback_iff.1 hneeded
  unfold allocateByFallback
  split
  · next hfixed =>
    refine .shared fun hbad => ?_
    rcases hinfeasible.1 hbad with ⟨-, hzero⟩ | ⟨hfill, -⟩
    · exact absurd hzero hfixed.ne'
    · exact hfill ⟨hopen, hnone, hfixed⟩
  · next hfixed =>
    have hzero : fixedTotal cs = 0 := le_antisymm (not_lt.1 hfixed) (fixedTotal_nonneg hc)
    split
    · next hall => exact .refused (.nobodyAvailable (List.all_eq_true.1 hall) hzero)
    · next hsome =>
      refine ending_shareOpenMarket weighing_equal hc (rivals_of_fallback hneeded) ?_ _
      rw [hinfeasible, and_iff_right fun hfill => hfixed hfill.2.2]
      exact or_iff_right fun hall => hsome (List.all_eq_true.2 hall.1)

theorem ending_allocate {cs : List (Contender α)} (hne : cs ≠ []) : Ending cs (allocate cs) := by
  unfold allocate
  rw [if_neg (by simpa using hne)]
  cases hcheck : checkContenders cs with
  | error e => exact .refused (infeasible_of_checkContenders hcheck)
  | ok u =>
    obtain ⟨hc, hle⟩ := checkContenders_eq_ok_iff.1 hcheck
    change Ending cs (allocateChecked cs)
    unfold allocateChecked
    split
    · next hneeded => exact ending_allocateByFallback hc hle hneeded
    · next hfits =>
      have hfits : needsFallback cs = false := by simpa using hfits
      refine ending_shareOpenMarket weighing_logit hc (rivals_of_logit hfits) ?_ _
      have hnotFilled : ¬FixedSharesFill cs := by
        rintro ⟨hopen, hnone, -⟩
        simp [needsFallback_iff.2 ⟨hopen, hnone⟩] at hfits
      rw [infeasible_iff_of_checked hc hle, and_iff_right hnotFilled]
      refine or_iff_right fun ⟨hall, hzero⟩ => ?_
      -- Nobody has a logit weight, although the whole market is open.
      have hopen : Quantity.shareTolerance < openMarket cs := by
        rw [openMarket_eq_one hzero]
        exact Quantity.shareTolerance_lt_one
      have hnone : cs.any Contender.isEligible = false := by
        rw [List.any_eq_false]
        intro c hmem
        simp [Contender.isEligible, Contender.hasWeight, Contender.freeWeight,
          Contender.pricedWeight, hall c hmem]
      simp [needsFallback_iff.2 ⟨hopen, hnone⟩] at hfits

theorem Contender.pricedWeight_of_pos {c : Contender α} (hfixed : c.fixedShare = none)
    (hshare : 0 < c.shareWeight) (hprice : 0 < c.price) (hfinite : Quantity.isFinite c.price = true)
    (hbounded :
      Quantity.isFinite (c.shareWeight * Quantity.pow c.price c.logitExponent) = true) :
    c.pricedWeight = some (c.shareWeight * Quantity.pow c.price c.logitExponent) := by
  have hweight : c.weight = .priced (c.shareWeight * Quantity.pow c.price c.logitExponent) := by
    simp [weight, logitWeight, not_le.2 hshare, not_le.2 hprice, hfinite, hbounded]
  have hpos := mul_pos hshare (ExactQuantity.pow_positive c.logitExponent hprice)
  simp [pricedWeight, hfixed, hweight, hpos]

/-- A market without free contenders is refused if the passes over the priced ones do not end. -/
theorem allocate_eq_notConverged {cs : List (Contender α)} (hne : cs ≠ [])
    (hc : ∀ c ∈ cs, c.Admissible) (hle : fixedTotal cs ≤ 1 + Quantity.shareTolerance)
    (hfits : needsFallback cs = false) (hopen : Quantity.shareTolerance < openMarket cs)
    (hfree : ∀ c ∈ cs, c.freeWeight = none)
    (hpriced : distribute (openMarket cs) (cs.map fun c => c.claim c.pricedWeight)
      = .error .notConverged) : allocate cs = .error (.limits .notConverged) := by
  have hfirst : distribute (openMarket cs) (cs.map fun c => c.claim c.freeWeight)
      = .ok ⟨(cs.map fun c => c.claim c.freeWeight).map Holding.start, openMarket cs⟩ :=
    distribute_idle (openMarket_nonneg cs) (List.forall_mem_map.2 hfree)
  have hsecond : shareLeftover (openMarket cs) (cs.map fun c => c.claim c.pricedWeight)
      = .error .notConverged := by
    rw [shareLeftover, if_pos hopen]
    exact bind_eq_error.2 (.inl hpriced)
  have hshared : shareOpenMarket cs Contender.freeWeight Contender.pricedWeight
      = .error (.limits .notConverged) :=
    mapError_eq_error.2
      ⟨_, bind_eq_error.2 (.inr ⟨_, hfirst, bind_eq_error.2 (.inl hsecond)⟩), rfl⟩
  rw [allocate, if_neg (by simpa using hne), checkContenders_eq_ok_iff.2 ⟨hc, hle⟩]
  change allocateChecked cs = _
  rw [allocateChecked, if_neg (by simp [hfits]), hshared]
  rfl

/-- An allocation fails exactly if the market is infeasible or the passes do not end, for which
there have to be as many rivals as there are passes. -/
theorem allocate_fails_iff {cs : List (Contender α)} (hne : cs ≠ []) :
    (∃ e, allocate cs = .error e) ↔
      Infeasible cs ∨
        allocate cs = .error (.limits .notConverged) ∧ maxLimitPasses ≤ (rivals cs).length := by
  have hending := ending_allocate hne
  constructor
  · rintro ⟨e, he⟩
    rw [he] at hending
    cases hending with
    | refused hinfeasible => exact .inl hinfeasible
    | cutOff hmany => exact .inr ⟨he, hmany⟩
  · rintro (hinfeasible | ⟨he, -⟩)
    · cases h : allocate cs with
      | error e => exact ⟨e, rfl⟩
      | ok a =>
        rw [h] at hending
        cases hending with
        | shared hfeasible => exact absurd hinfeasible hfeasible
    · exact ⟨_, he⟩

/-- Two contenders that together can take no more than six tenths of the market. -/
def scarceMarket : List (Contender ℚ) :=
  [⟨1, 1, -1, 3 / 10, none⟩, ⟨1, 1, -1, 3 / 10, none⟩]

theorem scarceMarket_fails_iff :
    (scarceMarket ≠ [] ∧ allocate scarceMarket = .error (.limits (.unallocated (2 / 5)))) ∧
      ((∃ e, allocate scarceMarket = .error e) ↔
        Infeasible scarceMarket ∨
          allocate scarceMarket = .error (.limits .notConverged) ∧
            maxLimitPasses ≤ (rivals scarceMarket).length) := by
  have hne : scarceMarket ≠ [] := by simp [scarceMarket]
  have h : allocate scarceMarket = .error (.limits (.unallocated (2 / 5))) := by with_unfolding_all rfl
  exact ⟨⟨hne, h⟩, allocate_fails_iff hne⟩

/-- A market of a hundred and one contenders at the same price, with a steep fall of weights. -/
def steepMarket : List (Contender ℚ) :=
  (steepClaims (1 / 128 : ℚ) maxLimitPasses 1).map fun c => ⟨c.weight.getD 0, 1, -1, c.limit, none⟩

theorem mem_steepMarket {c : Contender ℚ} (hc : c ∈ steepMarket) :
    c.fixedShare = none ∧ c.price = 1 ∧ c.logitExponent = -1 ∧ 0 < c.shareWeight ∧
      0 ≤ c.capacityLimit ∧ c.capacityLimit ≤ 1 := by
  obtain ⟨x, hx, rfl⟩ := List.mem_map.1 hc
  obtain ⟨v, hv, hpos, -, hlimit, hlimit1⟩ :=
    mem_steepClaims (by norm_num) (by norm_num) maxLimitPasses one_pos x hx
  refine ⟨rfl, rfl, rfl, ?_, ?_, hlimit1⟩
  · simpa [hv] using hpos
  · exact le_trans (by norm_num) hlimit

theorem pricedWeight_steepMarket {c : Contender ℚ} (hc : c ∈ steepMarket) :
    c.pricedWeight = some c.shareWeight := by
  obtain ⟨hfixed, hprice, hexponent, hpos, -⟩ := mem_steepMarket hc
  have hpow : Quantity.pow (1 : ℚ) (-1) = 1 := one_zpow _
  rw [Contender.pricedWeight_of_pos hfixed hpos (by rw [hprice]; exact one_pos) rfl rfl, hprice,
    hexponent, hpow, mul_one]

theorem freeWeight_steepMarket {c : Contender ℚ} (hc : c ∈ steepMarket) : c.freeWeight = none := by
  cases hf : c.freeWeight with
  | none => rfl
  | some w =>
    have hnone := weighing_logit.priced_of_free c w hf
    rw [pricedWeight_steepMarket hc] at hnone
    cases hnone

theorem eligible_steepMarket {c : Contender ℚ} (hc : c ∈ steepMarket) : c.isEligible = true := by
  simp [Contender.isEligible, Contender.hasWeight, pricedWeight_steepMarket hc]

theorem admissible_steepMarket {c : Contender ℚ} (hc : c ∈ steepMarket) : c.Admissible := by
  obtain ⟨hfixed, -, -, -, hlimit0, hlimit1⟩ := mem_steepMarket hc
  exact ⟨hlimit0, hlimit1, by simp [hfixed], by simp [hfixed], by simp [hfixed]⟩

theorem fixedTotal_steepMarket : fixedTotal steepMarket = 0 :=
  fixedTotal_eq_zero fun _ hc => (mem_steepMarket hc).1

theorem openMarket_steepMarket : openMarket steepMarket = 1 :=
  openMarket_eq_one fixedTotal_steepMarket

theorem steepMarket_ne_nil : steepMarket ≠ [] := by
  rw [steepMarket, maxLimitPasses, steepClaims, List.map_cons]
  exact List.cons_ne_nil _ _

theorem needsFallback_steepMarket : needsFallback steepMarket = false := by
  obtain ⟨c, hc⟩ := List.exists_mem_of_ne_nil _ steepMarket_ne_nil
  rw [← Bool.not_eq_true, needsFallback_iff]
  rintro ⟨-, hnone⟩
  exact List.any_eq_false.1 hnone c hc (eligible_steepMarket hc)

/-- The last of steep claims could take a whole market. -/
theorem one_le_sum_limit_steepClaims {ε : α} (hε : 0 < ε) (n : ℕ) (w : α) :
    1 ≤ ((steepClaims ε n w).map Claim.limit).sum := by
  induction n generalizing w with
  | zero => simp [steepClaims]
  | succ n ih =>
    rw [steepClaims, List.map_cons, List.sum_cons]
    exact (ih _).trans (le_add_of_nonneg_left hε.le)

theorem feasible_steepMarket : ¬Infeasible steepMarket := by
  have hc : ∀ c ∈ steepMarket, c.Admissible := fun c hc => admissible_steepMarket hc
  have hle := fixedTotal_fits fixedTotal_steepMarket
  rw [infeasible_iff_of_checked hc hle]
  rintro (⟨hall, -⟩ | ⟨-, hshort⟩)
  · obtain ⟨c, hmem⟩ := List.exists_mem_of_ne_nil _ steepMarket_ne_nil
    have hfixed := hall c hmem
    rw [(mem_steepMarket hmem).1] at hfixed
    cases hfixed
  · have hrivals : rivals steepMarket = steepMarket := by
      rw [rivals_of_logit needsFallback_steepMarket]
      exact List.filter_eq_self.2 fun c hmem => eligible_steepMarket hmem
    have hlimits : steepMarket.map Contender.capacityLimit
        = (steepClaims (1 / 128 : ℚ) maxLimitPasses 1).map Claim.limit := by
      rw [steepMarket, List.map_map]
      rfl
    rw [hrivals, openMarket_steepMarket, hlimits] at hshort
    have henough := one_le_sum_limit_steepClaims (ε := (1 / 128 : ℚ)) (by norm_num) maxLimitPasses 1
    have htol : (0 : ℚ) < Quantity.shareTolerance := Quantity.shareTolerance_pos
    linarith

theorem pricedClaims_steepMarket :
    (steepMarket.map fun c => c.claim c.pricedWeight) = steepClaims (1 / 128) maxLimitPasses 1 := by
  have hclaim : ∀ x ∈ steepClaims (1 / 128 : ℚ) maxLimitPasses 1,
      (⟨some (x.weight.getD 0), x.limit⟩ : Claim ℚ) = x := by
    intro x hx
    obtain ⟨v, hv, -⟩ := mem_steepClaims (by norm_num) (by norm_num) maxLimitPasses one_pos x hx
    rw [hv]
    cases x
    simp_all
  have hpriced : (steepMarket.map fun c => c.claim c.pricedWeight)
      = steepMarket.map fun c => c.claim (some c.shareWeight) :=
    List.map_congr_left fun c hc => by rw [pricedWeight_steepMarket hc]
  rw [hpriced, steepMarket, List.map_map]
  exact (List.map_congr_left hclaim).trans (List.map_id' _)

/-- A feasible market is refused because the passes do not end in time. -/
theorem steepMarket_refused :
    steepMarket ≠ [] ∧ ¬Infeasible steepMarket ∧
      allocate steepMarket = .error (.limits .notConverged) := by
  refine ⟨steepMarket_ne_nil, feasible_steepMarket, ?_⟩
  have hle := fixedTotal_fits fixedTotal_steepMarket
  have hpriced : distribute (openMarket steepMarket)
      (steepMarket.map fun c => c.claim c.pricedWeight) = .error .notConverged := by
    rw [openMarket_steepMarket, pricedClaims_steepMarket]
    exact distribute_steepClaims (by norm_num) (by norm_num [maxLimitPasses]) le_rfl
  exact allocate_eq_notConverged steepMarket_ne_nil (fun c hc => admissible_steepMarket hc) hle
    needsFallback_steepMarket (openMarket_steepMarket ▸ Quantity.shareTolerance_lt_one)
    (fun c hc => freeWeight_steepMarket hc) hpriced

end NestedLogit
