import Mathlib.Data.Fintype.Perm
import Mathlib.Data.List.FinRange
import Mathlib.Logic.Equiv.Fin.Rotate
import NestedLogit.Proofs.Choice.Conservation

/-!
# What an allocation does not depend on

An allocation depends neither on the order of the contenders nor on the unit of their share weights.
Weights count only in proportion to their sum, and everything else that contenders have in common,
such as the rest of a pool and the weight that is open, is a sum over all of them, so that what a
contender gets follows from the contender itself.

## Main definitions

- `Contender.rescale` — a contender with its share weight in another unit

## Main statements

- `allocate_rescale` — share weights in another unit give the same allocation
- `allocate_perm` — contenders in another order get the same awards
- `allocate_symmetric` — both at once
-/

namespace NestedLogit

variable {α : Type} [ExactQuantity α] {k : α}

section Rescaling

/-- A claim with its weight in another unit. -/
def Claim.rescale (k : α) (c : Claim α) : Claim α :=
  { c with weight := c.weight.map (k * ·) }

theorem portion_rescale (hk : 0 < k) (pool total w : α) :
    portion pool (k * total) (k * w) = portion pool total w := by
  unfold portion
  by_cases ht : 0 < total
  · rw [if_pos (mul_pos hk ht), if_pos ht, mul_left_comm, mul_div_mul_left _ _ hk.ne']
  · rw [if_neg ht, if_neg fun h => ht (pos_of_mul_pos_right h hk.le)]

namespace Holding

def rescale (k : α) (h : Holding α) : Holding α :=
  { h with toClaim := h.toClaim.rescale k }

theorem openWeight_rescale (k : α) (h : Holding α) :
    (h.rescale k).openWeight = h.openWeight.map (k * ·) := by
  by_cases hl : h.limited = true <;> simp [openWeight, rescale, Claim.rescale, hl]

theorem overflows_rescale (hk : 0 < k) (pool total : α) (h : Holding α) :
    (h.rescale k).overflows pool (k * total) = h.overflows pool total := by
  unfold overflows
  rw [openWeight_rescale]
  cases h.openWeight with
  | none => rfl
  | some w =>
    simp only [Option.map_some, portion_rescale hk]
    rfl

theorem pass_rescale (hk : 0 < k) (pool total : α) (h : Holding α) :
    (h.rescale k).pass pool (k * total) = (h.pass pool total).rescale k := by
  cases hw : h.openWeight with
  | none => rw [pass_of_closed hw, pass_of_closed (by rw [openWeight_rescale, hw]; rfl)]
  | some w =>
    have hw' : (h.rescale k).openWeight = some (k * w) := by rw [openWeight_rescale, hw]; rfl
    cases ho : h.overflows pool total with
    | true =>
      rw [pass_of_overflows ho, pass_of_overflows ((overflows_rescale hk pool total h).trans ho)]
      rfl
    | false =>
      rw [pass_of_fits hw ho, pass_of_fits hw' ((overflows_rescale hk pool total h).trans ho),
        portion_rescale hk]
      rfl

end Holding

def Distribution.rescale (k : α) (d : Distribution α) : Distribution α :=
  { d with holdings := d.holdings.map (Holding.rescale k) }

theorem openPool_rescale (pool : α) (hs : List (Holding α)) :
    openPool pool (hs.map (Holding.rescale k)) = openPool pool hs := by
  rw [openPool, openPool, List.filterMap_map]
  rfl

theorem openTotal_rescale (hs : List (Holding α)) :
    openTotal (hs.map (Holding.rescale k)) = k * openTotal hs := by
  have hweights : (hs.map (Holding.rescale k)).filterMap Holding.openWeight
      = (hs.filterMap Holding.openWeight).map (k * ·) := by
    rw [List.filterMap_map, List.map_filterMap]
    exact List.filterMap_congr fun h _ => h.openWeight_rescale k
  rw [openTotal, openTotal, hweights, Quantity.total_eq_sum, Quantity.total_eq_sum,
    List.sum_map_mul_left, List.map_id']

theorem passes_rescale (hk : 0 < k) (pool : α) (fuel : ℕ) (hs : List (Holding α)) :
    passes pool fuel (hs.map (Holding.rescale k))
      = (passes pool fuel hs).map (Distribution.rescale k) := by
  induction fuel generalizing hs with
  | zero => rfl
  | succ fuel ih =>
    have hpass : (hs.map (Holding.rescale k)).map
          (Holding.pass (openPool pool hs) (k * openTotal hs))
        = (hs.map (Holding.pass (openPool pool hs) (openTotal hs))).map (Holding.rescale k) := by
      simp [Function.comp_def, Holding.pass_rescale hk]
    have hany : (hs.map (Holding.rescale k)).any
          (Holding.overflows (openPool pool hs) (k * openTotal hs))
        = hs.any (Holding.overflows (openPool pool hs) (openTotal hs)) := by
      simp [Function.comp_def, Holding.overflows_rescale hk]
    simp only [passes, openPool_rescale, openTotal_rescale, hpass, hany]
    by_cases ht : openTotal hs ≤ 0
    · rw [if_pos ht, if_pos (mul_nonpos_of_nonneg_of_nonpos hk.le ht)]
      rfl
    · have ht' : ¬k * openTotal hs ≤ 0 := not_le.2 (mul_pos hk (not_le.1 ht))
      rw [if_neg ht, if_neg ht']
      split
      · exact ih _
      · rfl

theorem distribute_rescale (hk : 0 < k) (pool : α) (claims : List (Claim α)) :
    distribute pool (claims.map (Claim.rescale k))
      = (distribute pool claims).map (Distribution.rescale k) := by
  have hstart : (claims.map (Claim.rescale k)).map Holding.start
      = (claims.map Holding.start).map (Holding.rescale k) := by
    rw [List.map_map, List.map_map]
    rfl
  rw [distribute, hstart, passes_rescale hk]
  rfl

theorem shareLeftover_rescale (hk : 0 < k) (rest : α) (claims : List (Claim α)) :
    shareLeftover rest (claims.map (Claim.rescale k))
      = (shareLeftover rest claims).map (List.map (Holding.rescale k)) := by
  unfold shareLeftover
  split
  · rw [limitShares, limitShares, distribute_rescale hk]
    cases distribute rest claims with
    | error e => rfl
    | ok d =>
      change (if d.unallocated ≤ _ then _ else _)
        = Except.map _ (if d.unallocated ≤ _ then _ else _)
      split <;> rfl
  · change Except.ok _ = Except.ok _
    rw [List.map_map, List.map_map]
    rfl

/-- Contenders whose weights are in another unit share an open market in the same way. -/
theorem shareOpenMarket_rescale (hk : 0 < k) (free priced : Contender α → Option α)
    {f : Contender α → Contender α} (hfixed : ∀ c, (f c).fixedShare = c.fixedShare)
    (hlimit : ∀ c, (f c).capacityLimit = c.capacityLimit)
    (hfree : ∀ c, free (f c) = (free c).map (k * ·))
    (hpriced : ∀ c, priced (f c) = (priced c).map (k * ·)) (cs : List (Contender α)) :
    shareOpenMarket (cs.map f) free priced = shareOpenMarket cs free priced := by
  have hopen : openMarket (cs.map f) = openMarket cs := by
    rw [openMarket, openMarket, fixedTotal, fixedTotal, List.filterMap_map]
    simp only [Function.comp_def, hfixed]
  have hclaims : ∀ weight : Contender α → Option α,
      (∀ c, weight (f c) = (weight c).map (k * ·)) →
      ((cs.map f).map fun c => c.claim (weight c))
        = (cs.map fun c => c.claim (weight c)).map (Claim.rescale k) := by
    intro weight hweight
    simp [Contender.claim, Claim.rescale, hlimit, hweight]
  have haward : ∀ (c : Contender α) (h₁ h₂ : Holding α),
      (f c).award (h₁.rescale k) (h₂.rescale k) = c.award h₁ h₂ := by
    intro c h₁ h₂
    simp [Contender.award, Holding.rescale, Claim.rescale, hfixed]
  unfold shareOpenMarket
  dsimp only
  rw [hopen, hclaims free hfree, hclaims priced hpriced, distribute_rescale hk]
  cases distribute (openMarket cs) (cs.map fun c => c.claim (free c)) with
  | error e => rfl
  | ok first =>
    change Except.mapError _ (shareLeftover first.unallocated _ >>= _) =
      Except.mapError _ (shareLeftover first.unallocated _ >>= _)
    rw [shareLeftover_rescale hk]
    cases shareLeftover first.unallocated (cs.map fun c => c.claim (priced c)) with
    | error e => rfl
    | ok second =>
      change Except.ok (List.zipWith _ _ _) = Except.ok (List.zipWith _ _ _)
      rw [Distribution.rescale, List.zip_map, List.zipWith_map]
      simp only [Prod.map_fst, Prod.map_snd, haward]

def LogitWeight.rescale (k : α) : LogitWeight α → LogitWeight α
  | .excluded => .excluded
  | .free w => .free (k * w)
  | .priced w => .priced (k * w)

namespace Contender

/-- A contender with its share weight in another unit. -/
def rescale (k : α) (c : Contender α) : Contender α :=
  { c with shareWeight := k * c.shareWeight }

theorem weight_rescale (hk : 0 < k)
    (hfinite : ∀ a : α, Quantity.isFinite (k * a) = Quantity.isFinite a) (c : Contender α) :
    (c.rescale k).weight = c.weight.rescale k := by
  have hpos : k * c.shareWeight ≤ 0 ↔ c.shareWeight ≤ 0 := by
    rw [← not_lt, ← not_lt, mul_pos_iff_of_pos_left hk]
  simp only [weight, logitWeight, rescale, Quantity.isUndefined_eq_false, hpos, mul_assoc, hfinite,
    apply_ite (LogitWeight.rescale k)]
  rfl

variable (hk : 0 < k) (hfinite : ∀ a : α, Quantity.isFinite (k * a) = Quantity.isFinite a)
include hk hfinite

theorem freeWeight_rescale (c : Contender α) :
    (c.rescale k).freeWeight = c.freeWeight.map (k * ·) := by
  unfold freeWeight
  rw [weight_rescale hk hfinite]
  by_cases hfixed : c.fixedShare.isSome = true
  · rw [if_pos hfixed, if_pos (by exact hfixed)]
    rfl
  · rw [if_neg hfixed, if_neg (by exact hfixed)]
    cases c.weight <;> rfl

theorem pricedWeight_rescale (c : Contender α) :
    (c.rescale k).pricedWeight = c.pricedWeight.map (k * ·) := by
  unfold pricedWeight
  rw [weight_rescale hk hfinite]
  by_cases hfixed : c.fixedShare.isSome = true
  · rw [if_pos hfixed, if_pos (by exact hfixed)]
    rfl
  · rw [if_neg hfixed, if_neg (by exact hfixed)]
    cases c.weight with
    | excluded => rfl
    | free w => rfl
    | priced w =>
      have hpos : 0 < k * w ↔ 0 < w := mul_pos_iff_of_pos_left hk
      by_cases hw : 0 < w <;> simp [LogitWeight.rescale, hpos, hw]

end Contender

theorem competingTotal_rescale (hk : 0 < k)
    (hfinite : ∀ a : α, Quantity.isFinite (k * a) = Quantity.isFinite a)
    (cs : List (Contender α)) :
    competingTotal (cs.map (Contender.rescale k)) = k * competingTotal cs := by
  have hweights : ∀ weight : Contender α → Option α,
      (∀ c : Contender α, weight (c.rescale k) = (weight c).map (k * ·)) →
      (cs.map (Contender.rescale k)).filterMap weight = (cs.filterMap weight).map (k * ·) := by
    intro weight hweight
    rw [List.filterMap_map, List.map_filterMap]
    exact List.filterMap_congr fun c _ => hweight c
  rw [competingTotal, competingTotal, hweights _ (Contender.freeWeight_rescale hk hfinite),
    hweights _ (Contender.pricedWeight_rescale hk hfinite), ← List.map_append,
    Quantity.total_eq_sum, Quantity.total_eq_sum, List.sum_map_mul_left, List.map_id']

/-- Share weights in another unit give the same allocation, or the same error. -/
theorem allocate_rescale (hk : 0 < k)
    (hfinite : ∀ a : α, Quantity.isFinite (k * a) = Quantity.isFinite a)
    (cs : List (Contender α)) : allocate (cs.map (Contender.rescale k)) = allocate cs := by
  have hfixed : fixedTotal (cs.map (Contender.rescale k)) = fixedTotal cs := by
    rw [fixedTotal, fixedTotal, List.filterMap_map]
    rfl
  have hcheck : checkContenders (cs.map (Contender.rescale k)) = checkContenders cs := by
    rw [checkContenders, checkContenders, hfixed, List.forM_eq_forM, List.forM_map]
    rfl
  have hneeded : needsFallback (cs.map (Contender.rescale k)) = needsFallback cs := by
    have hnobody : k * competingTotal cs ≤ 0 ↔ competingTotal cs ≤ 0 := by
      rw [← not_lt, ← not_lt, mul_pos_iff_of_pos_left hk]
    rw [needsFallback, needsFallback, openMarket, openMarket, hfixed,
      competingTotal_rescale hk hfinite, decide_eq_decide.2 hnobody]
  have hlogit := shareOpenMarket_rescale hk Contender.freeWeight Contender.pricedWeight
    (f := Contender.rescale k) (fun _ => rfl) (fun _ => rfl)
    (Contender.freeWeight_rescale hk hfinite)
    (Contender.pricedWeight_rescale hk hfinite) cs
  -- In an equal split everybody has a weight of one, whatever the unit of the share weights.
  have hequal := shareOpenMarket_rescale one_pos (fun _ => none) Contender.equalWeight
    (f := Contender.rescale k) (fun _ => rfl) (fun _ => rfl) (fun _ => rfl)
    (fun c => by cases h : c.fixedShare <;> simp [Contender.equalWeight, Contender.rescale, h]) cs
  have hscaled : scaledFixedShares (cs.map (Contender.rescale k)) = scaledFixedShares cs := by
    rw [scaledFixedShares, scaledFixedShares, hfixed, List.map_map]
    rfl
  have hall : (cs.map (Contender.rescale k)).all (fun c => c.fixedShare.isSome)
      = cs.all fun c => c.fixedShare.isSome := List.all_map
  simp only [allocate, allocateChecked, allocateByFallback, List.isEmpty_map, hcheck, hneeded,
    hfixed, hscaled, hall, hlogit, hequal]

end Rescaling

section Rearrangement

variable {β : Type} {xs ys : List β}

theorem total_filterMap_perm (h : xs.Perm ys) (f : β → Option α) :
    Quantity.total (xs.filterMap f) = Quantity.total (ys.filterMap f) := by
  rw [Quantity.total_eq_sum, Quantity.total_eq_sum, (h.filterMap f).sum_eq]

/-- Passes over the same holdings in another order leave the same of each holding. -/
theorem passes_perm (h : xs.Perm ys) (pool : α) (fuel : ℕ) (g : β → Holding α) :
    ∃ r : Except (LimitError α) ((β → Holding α) × α),
      passes pool fuel (xs.map g) = r.map (fun d => ⟨xs.map d.1, d.2⟩) ∧
        passes pool fuel (ys.map g) = r.map (fun d => ⟨ys.map d.1, d.2⟩) := by
  induction fuel generalizing g with
  | zero => exact ⟨.error .notConverged, rfl, rfl⟩
  | succ fuel ih =>
    have hpool : openPool pool (ys.map g) = openPool pool (xs.map g) := by
      rw [openPool, openPool, List.filterMap_map, List.filterMap_map, total_filterMap_perm h]
    have htotal : openTotal (ys.map g) = openTotal (xs.map g) := by
      rw [openTotal, openTotal, List.filterMap_map, List.filterMap_map, total_filterMap_perm h]
    simp only [passes, hpool, htotal, List.map_map, List.any_map]
    rw [h.symm.any_eq]
    split
    · exact ⟨.ok (g, _), rfl, rfl⟩
    · split
      · exact ih _
      · exact ⟨.ok (_, 0), rfl, rfl⟩

theorem shareLeftover_perm (h : xs.Perm ys) (rest : α) (g : β → Claim α) :
    ∃ r : Except (LimitError α) (β → Holding α),
      shareLeftover rest (xs.map g) = r.map (fun hold => xs.map hold) ∧
        shareLeftover rest (ys.map g) = r.map (fun hold => ys.map hold) := by
  unfold shareLeftover
  split
  · obtain ⟨r, hx, hy⟩ := passes_perm h rest maxLimitPasses fun b => Holding.start (g b)
    simp only [limitShares, distribute, List.map_map, Function.comp_def, hx, hy]
    cases r with
    | error e => exact ⟨.error e, rfl, rfl⟩
    | ok d =>
      by_cases hrest : d.2 ≤ Quantity.shareTolerance
      · exact ⟨.ok d.1, if_pos hrest, if_pos hrest⟩
      · exact ⟨.error (.unallocated d.2), if_neg hrest, if_neg hrest⟩
  · exact ⟨.ok fun b => Holding.start (g b), by simp [Except.map], by simp [Except.map]⟩

section Totals

variable {cs cs' : List (Contender α)}

theorem fixedTotal_perm (h : cs.Perm cs') : fixedTotal cs' = fixedTotal cs :=
  (total_filterMap_perm h _).symm

theorem openMarket_perm (h : cs.Perm cs') : openMarket cs' = openMarket cs := by
  rw [openMarket, openMarket, fixedTotal_perm h]

theorem needsFallback_perm (h : cs.Perm cs') : needsFallback cs' = needsFallback cs := by
  have htotal : competingTotal cs' = competingTotal cs := by
    rw [competingTotal, competingTotal, Quantity.total_eq_sum, Quantity.total_eq_sum]
    exact ((h.symm.filterMap _).append (h.symm.filterMap _)).sum_eq
  rw [needsFallback, needsFallback, openMarket_perm h, htotal]

end Totals

theorem shareOpenMarket_perm (h : xs.Perm ys) (free priced : Contender α → Option α)
    (cs : β → Contender α) :
    ∃ r : Except (AllocationError α) (β → Award α),
      shareOpenMarket (xs.map cs) free priced = r.map (fun award => xs.map award) ∧
        shareOpenMarket (ys.map cs) free priced = r.map (fun award => ys.map award) := by
  obtain ⟨first, hx, hy⟩ := passes_perm h (openMarket (xs.map cs)) maxLimitPasses
    fun b => Holding.start ((cs b).claim (free (cs b)))
  simp only [shareOpenMarket, distribute, openMarket_perm (h.map cs), List.map_map,
    Function.comp_def, hx, hy]
  cases first with
  | error e => exact ⟨.error (.limits e), rfl, rfl⟩
  | ok d =>
    obtain ⟨second, hx, hy⟩ :=
      shareLeftover_perm h d.2 fun b => (cs b).claim (priced (cs b))
    simp only [Except.map, bind, Except.bind, hx, hy]
    cases second with
    | error e => exact ⟨.error (.limits e), rfl, rfl⟩
    | ok hold =>
      refine ⟨.ok fun b => (cs b).award (d.1 b) (hold b), ?_, ?_⟩ <;>
        simp [Except.mapError, pure, Except.pure, List.zip_map', List.zipWith_map,
          List.zipWith_self]

theorem allocateChecked_perm (h : xs.Perm ys) (cs : β → Contender α) :
    ∃ r : Except (AllocationError α) ((β → Award α) × Option Fallback),
      allocateChecked (xs.map cs) = r.map (fun a => ⟨xs.map a.1, a.2⟩) ∧
        allocateChecked (ys.map cs) = r.map (fun a => ⟨ys.map a.1, a.2⟩) := by
  have hshare : ∀ (free priced : Contender α → Option α) (fallback : Option Fallback),
      ∃ r : Except (AllocationError α) ((β → Award α) × Option Fallback),
        (shareOpenMarket (xs.map cs) free priced).map (Allocation.mk · fallback)
            = r.map (fun a => ⟨xs.map a.1, a.2⟩) ∧
          (shareOpenMarket (ys.map cs) free priced).map (Allocation.mk · fallback)
            = r.map (fun a => ⟨ys.map a.1, a.2⟩) := by
    intro free priced fallback
    obtain ⟨r, hx, hy⟩ := shareOpenMarket_perm h free priced cs
    refine ⟨r.map fun award => (award, fallback), ?_, ?_⟩
    · rw [hx]
      cases r <;> rfl
    · rw [hy]
      cases r <;> rfl
  unfold allocateChecked
  rw [needsFallback_perm (h.map cs)]
  split
  · have hall : (ys.map cs).all (fun c => c.fixedShare.isSome)
        = (xs.map cs).all fun c => c.fixedShare.isSome := (h.symm.map cs).all_eq
    unfold allocateByFallback scaledFixedShares
    rw [fixedTotal_perm (h.map cs), hall]
    split
    · refine ⟨.ok (fun b => ⟨(cs b).fixedShare.getD 0 / fixedTotal (xs.map cs), false⟩,
        some .scaledFixedShares), ?_, ?_⟩ <;>
        simp [Except.map]
    · split
      · exact ⟨.error .nobodyAvailable, rfl, rfl⟩
      · exact hshare _ _ _
  · exact hshare _ _ _

/-- Contenders in another order are refused or awarded the same: the award of each follows from who
takes part, not from the order. -/
theorem allocate_perm (h : xs.Perm ys) (cs : β → Contender α) :
    (∃ e e', allocate (xs.map cs) = .error e ∧ allocate (ys.map cs) = .error e') ∨
      ∃ (award : β → Award α) (fallback : Option Fallback),
        allocate (xs.map cs) = .ok ⟨xs.map award, fallback⟩ ∧
          allocate (ys.map cs) = .ok ⟨ys.map award, fallback⟩ := by
  by_cases hempty : xs = []
  · subst hempty
    obtain rfl := h.nil_eq
    exact .inr ⟨fun _ => ⟨0, false⟩, none, rfl, rfl⟩
  have hempty' : ys ≠ [] := fun hy => hempty (hy ▸ h).eq_nil
  have hcheck : checkContenders (xs.map cs) = .ok () ↔ checkContenders (ys.map cs) = .ok () := by
    simp only [checkContenders_eq_ok_iff, fixedTotal_perm (h.map cs), List.forall_mem_map,
      h.mem_iff]
  have hx : allocate (xs.map cs)
      = (checkContenders (xs.map cs) >>= fun _ => allocateChecked (xs.map cs)) :=
    if_neg (by simpa using hempty)
  have hy : allocate (ys.map cs)
      = (checkContenders (ys.map cs) >>= fun _ => allocateChecked (ys.map cs)) :=
    if_neg (by simpa using hempty')
  cases hxs : checkContenders (xs.map cs) with
  | error e =>
    cases hys : checkContenders (ys.map cs) with
    | error e' => exact .inl ⟨e, e', by rw [hx, hxs]; rfl, by rw [hy, hys]; rfl⟩
    | ok u => cases hxs.symm.trans (hcheck.2 hys)
  | ok u =>
    obtain ⟨r, hrx, hry⟩ := allocateChecked_perm h cs
    rw [hxs, hrx] at hx
    rw [hcheck.1 hxs, hry] at hy
    cases r with
    | error e => exact .inl ⟨e, e, hx, hy⟩
    | ok a => exact .inr ⟨a.1, a.2, hx, hy⟩

end Rearrangement

/-- Share weights in another unit and contenders in another order change nothing but the order of
the awards: both allocations fail, or both succeed with the same fallback, and each contender has
the same share and is capacity-limited in both or in neither. -/
theorem allocate_symmetric (cs : List (Contender α)) (σ : Equiv.Perm (Fin cs.length))
    (hk : 0 < k) (hfinite : ∀ a : α, Quantity.isFinite (k * a) = Quantity.isFinite a) :
    (∃ e e', allocate cs = .error e ∧
        allocate (List.ofFn fun i => (cs.get (σ i)).rescale k) = .error e') ∨
      ∃ (award : Fin cs.length → Award α) (fallback : Option Fallback),
        allocate cs = .ok ⟨List.ofFn award, fallback⟩ ∧
          allocate (List.ofFn fun i => (cs.get (σ i)).rescale k)
            = .ok ⟨List.ofFn fun i => award (σ i), fallback⟩ := by
  have hsame : (List.finRange cs.length).map cs.get = cs := by
    rw [← List.ofFn_eq_map, List.ofFn_get]
  have hother : ((List.finRange cs.length).map σ).map cs.get
      = List.ofFn fun i => cs.get (σ i) := by
    rw [List.ofFn_eq_map, List.map_map]
    rfl
  have hscaled : (List.ofFn fun i => (cs.get (σ i)).rescale k)
      = (List.ofFn fun i => cs.get (σ i)).map (Contender.rescale k) := by
    rw [List.map_ofFn]
    rfl
  rw [hscaled, allocate_rescale hk hfinite]
  rcases allocate_perm (σ.map_finRange_perm).symm cs.get with
    ⟨e, e', hx, hy⟩ | ⟨award, fallback, hx, hy⟩
  · rw [hsame] at hx
    rw [hother] at hy
    exact .inl ⟨e, e', hx, hy⟩
  · rw [hsame, ← List.ofFn_eq_map] at hx
    rw [hother, List.map_map, ← List.ofFn_eq_map] at hy
    exact .inr ⟨award, fallback, hx, hy⟩

/-- A free contender with little capacity and two priced ones. -/
def threeWayMarket : List (Contender ℚ) :=
  [⟨2, 0, -1, 1 / 5, none⟩, ⟨1, 10, -1, 1 / 2, none⟩, ⟨3, 20, -1, 1, none⟩]

theorem threeWayMarket_symmetric :
    ((0 : ℚ) < 7 ∧ ∀ a : ℚ, Quantity.isFinite (7 * a) = Quantity.isFinite a) ∧
      allocate threeWayMarket
        = .ok ⟨[⟨1 / 5, true⟩, ⟨8 / 25, false⟩, ⟨12 / 25, false⟩], none⟩ ∧
      ((∃ e e', allocate threeWayMarket = .error e ∧
          allocate (List.ofFn fun i => (threeWayMarket.get (finRotate 3 i)).rescale 7)
            = .error e') ∨
        ∃ (award : Fin threeWayMarket.length → Award ℚ) (fallback : Option Fallback),
          allocate threeWayMarket = .ok ⟨List.ofFn award, fallback⟩ ∧
            allocate (List.ofFn fun i => (threeWayMarket.get (finRotate 3 i)).rescale 7)
              = .ok ⟨List.ofFn fun i => award (finRotate 3 i), fallback⟩) := by
  have hk : (0 : ℚ) < 7 := by norm_num
  have hfinite : ∀ a : ℚ, Quantity.isFinite (7 * a) = Quantity.isFinite a := fun _ => rfl
  exact ⟨⟨hk, hfinite⟩, by with_unfolding_all rfl, allocate_symmetric threeWayMarket (finRotate 3) hk hfinite⟩

end NestedLogit
