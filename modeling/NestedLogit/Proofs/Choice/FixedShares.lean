import NestedLogit.Proofs.Choice.Feasibility

/-!
# Markets of fixed shares

Where every contender has a fixed share nobody competes for what these leave open. If that is nearly
nothing, everybody has their fixed share, and otherwise the fixed shares are scaled up to the whole
market. Logit weights and prices play no part.

## Main definitions

- `fixedAllocation` — what a market of fixed shares is shared out to

## Main statements

- `allocate_eq_ok_iff_of_fixed` — when it is shared out
- `awards_fixedAllocation_map` — what becomes of amounts that are fixed shares of a demand
-/

namespace NestedLogit

variable {α : Type} [ExactQuantity α]

/-- The allocation of a market in which every contender has a fixed share. -/
def fixedAllocation (cs : List (Contender α)) : Allocation α :=
  if Quantity.shareTolerance < openMarket cs then ⟨scaledFixedShares cs, some .scaledFixedShares⟩
  else ⟨cs.map fun c => ⟨c.fixedShare.getD 0, false⟩, none⟩

section Fixed

variable {cs : List (Contender α)}

theorem isEligible_of_fixed {c : Contender α} (h : c.fixedShare.isSome = true) :
    c.isEligible = false := by
  simp [Contender.isEligible, Contender.hasWeight, Contender.freeWeight, Contender.pricedWeight, h]

/-- Somebody has to compete if more than the tolerance is open, and nobody can. -/
theorem needsFallback_of_fixed (h : ∀ c ∈ cs, c.fixedShare.isSome = true) :
    needsFallback cs = true ↔ Quantity.shareTolerance < openMarket cs := by
  rw [needsFallback_iff, and_iff_left]
  exact List.any_eq_false.2 fun c hc => by simp [isEligible_of_fixed (h c hc)]

/-- An open market for which nobody competes leaves everybody with their fixed share. -/
theorem shareOpenMarket_of_fixed (h : ∀ c ∈ cs, c.fixedShare.isSome = true)
    (hopen : ¬Quantity.shareTolerance < openMarket cs) :
    shareOpenMarket cs Contender.freeWeight Contender.pricedWeight
      = .ok (cs.map fun c => ⟨c.fixedShare.getD 0, false⟩) := by
  have hfree : ∀ c ∈ cs, c.freeWeight = none := fun c hc => by
    rw [Contender.freeWeight, if_pos (h c hc)]
  have hfirst : distribute (openMarket cs) (cs.map fun c => c.claim c.freeWeight)
      = .ok ⟨(cs.map fun c => c.claim c.freeWeight).map Holding.start, openMarket cs⟩ :=
    distribute_idle (openMarket_nonneg cs) (List.forall_mem_map.2 hfree)
  exact shareOpenMarket_of_start weighing_logit hfirst (if_neg hopen)

/-- A market of fixed shares is shared out if it passes the checks and the fixed shares amount to
something. -/
theorem allocate_eq_ok_iff_of_fixed (hne : cs ≠ []) (h : ∀ c ∈ cs, c.fixedShare.isSome = true)
    {a : Allocation α} :
    allocate cs = .ok a ↔
      ((∀ c ∈ cs, c.Admissible) ∧ fixedTotal cs ≤ 1 + Quantity.shareTolerance) ∧
        0 < fixedTotal cs ∧ a = fixedAllocation cs := by
  have hempty : ¬cs.isEmpty = true := by simpa using hne
  rw [allocate, if_neg hempty, bind_eq_ok, ← checkContenders_eq_ok_iff]
  have hchecked : checkContenders cs = .ok () →
      (allocateChecked cs = .ok a ↔ 0 < fixedTotal cs ∧ a = fixedAllocation cs) := by
    intro hcheck
    have hnonneg := fixedTotal_nonneg (checkContenders_eq_ok_iff.1 hcheck).1
    unfold allocateChecked fixedAllocation
    split
    · next hneeded =>
      rw [if_pos ((needsFallback_of_fixed h).1 hneeded), allocateByFallback,
        if_pos (List.all_eq_true.2 h)]
      split
      · next hpos => rw [and_iff_right hpos, Except.ok.injEq, eq_comm]
      · next hnone => exact iff_of_false (by simp) fun hpos => hnone hpos.1
    · next hfits =>
      have hopen := mt (needsFallback_of_fixed h).2 hfits
      have hpos : 0 < fixedTotal cs := by
        refine hnonneg.lt_of_ne fun hzero => hopen ?_
        rw [openMarket_eq_one hzero.symm]
        exact Quantity.shareTolerance_lt_one
      rw [if_neg hopen, shareOpenMarket_of_fixed h hopen, and_iff_right hpos, Except.map,
        Except.ok.injEq, eq_comm]
  constructor
  · rintro ⟨⟨⟩, hcheck, hshared⟩
    exact ⟨hcheck, (hchecked hcheck).1 hshared⟩
  · rintro ⟨hcheck, hshared⟩
    exact ⟨(), hcheck, (hchecked hcheck).2 hshared⟩

end Fixed

section Amounts

variable {β : Type}

/-- The market that amounts share out which are offered for a demand: all that is offered, if it
falls short of the demand by more than the tolerance, and otherwise the demand. -/
def servedMarket (supply demand : α) : α :=
  if supply < demand * (1 - Quantity.shareTolerance) then supply else demand

theorem servedMarket_self (demand : α) : servedMarket demand demand = demand :=
  ite_self _

theorem servedMarket_pos {supply demand : α} (hsupply : 0 < supply) (hdemand : 0 < demand) :
    0 < servedMarket supply demand := by
  unfold servedMarket
  split
  · exact hsupply
  · exact hdemand

section Map

variable {demand : α} (hdemand : 0 < demand) {f : β → Contender α} {amount : β → α} {xs : List β}
  (hf : ∀ x ∈ xs, (f x).fixedShare = some (amount x / demand))

include hf

theorem fixedTotal_map : fixedTotal (xs.map f) = (xs.map amount).sum / demand := by
  rw [fixedTotal_eq_sum, List.map_map, div_eq_mul_inv, ← List.sum_map_mul_right]
  refine congrArg List.sum (List.map_congr_left fun x hx => ?_)
  rw [Function.comp_apply, Contender.fixedPart, hf x hx, Option.getD_some, div_eq_mul_inv]

include hdemand

/-- Amounts that are fixed shares of a demand become shares of the market that they serve. -/
theorem awards_fixedAllocation_map :
    (fixedAllocation (xs.map f)).awards = xs.map fun x =>
      ⟨amount x / servedMarket (xs.map amount).sum demand, false⟩ := by
  have hopen : Quantity.shareTolerance < openMarket (xs.map f) ↔
      (xs.map amount).sum < demand * (1 - Quantity.shareTolerance) := by
    rw [openMarket, fixedTotal_map hf, Quantity.larger_eq_max, lt_max_iff,
      or_iff_left Quantity.shareTolerance_pos.not_gt, lt_sub_comm, div_lt_iff₀ hdemand, mul_comm]
  unfold fixedAllocation servedMarket
  by_cases hshort : (xs.map amount).sum < demand * (1 - Quantity.shareTolerance)
  · rw [if_pos (hopen.2 hshort), if_pos hshort, scaledFixedShares, fixedTotal_map hf]
    dsimp only
    rw [List.map_map]
    refine List.map_congr_left fun x hx => ?_
    rw [Function.comp_apply, hf x hx, Option.getD_some, div_div_div_cancel_right₀ hdemand.ne']
  · rw [if_neg (mt hopen.1 hshort), if_neg hshort]
    dsimp only
    rw [List.map_map]
    refine List.map_congr_left fun x hx => ?_
    rw [Function.comp_apply, hf x hx, Option.getD_some]

end Map

end Amounts

end NestedLogit
