import NestedLogit.Proofs.Choice.Unmet
import NestedLogit.Proofs.Choice.WaterLevel

/-!
# A contender that becomes cheaper

Whoever becomes cheaper at a negative logit exponent does not lose, and nobody else gains. A lower
price raises the weight of a priced contender; it can also make the contender free, and then it is
served before those with whom it used to compete. Either way the free contenders together are left
with no more than before, and so are the priced ones, and everybody else gets less at a lower level.

## Main definitions

- `Contender.atPrice` — the same contender at another price
- `Favoured` — the ways in which a contender can come to count for more

## Main statements

- `Levels.favour` — what becomes of two levels when a contender is favoured
- `favoured_atPrice` — a lower price favours a contender
- `allocate_cheaper` — the shares before and after
-/

namespace NestedLogit

variable {α : Type} [ExactQuantity α]

/-- The same contender at another price. -/
def Contender.atPrice (c : Contender α) (price : α) : Contender α :=
  { c with price := price }

/-- The ways in which a contender can come to count for more: its weight rises, or it is free
instead of priced. -/
inductive Favoured (free priced : Contender α → Option α) (c c' : Contender α) : Prop
  | raised (hfree : Option.Rel (· ≤ ·) (free c) (free c'))
      (hpriced : Option.Rel (· ≤ ·) (priced c) (priced c'))
  | freed (v w : α) (hfree : free c = none) (hpriced : priced c = some w)
      (hfree' : free c' = some v) (hpriced' : priced c' = none)

/-- Shares before and after: who has become cheaper does not lose, and nobody else gains. -/
structure Gains (c : Contender α) (price : α) (others : List (Contender α))
    (share share' : Contender α → α) : Prop where
  own : share c ≤ share' (c.atPrice price)
  others : ∀ o ∈ others, share' o ≤ share o

section Levels

variable {free priced : Contender α → Option α} {c : Contender α} {others : List (Contender α)}
  {price first second first' second' : α}

theorem getD_le_of_rel {x y : Option α} (h : Option.Rel (· ≤ ·) x y) : x.getD 0 ≤ y.getD 0 := by
  cases h with
  | some hle => exact hle
  | none => exact le_rfl

omit [ExactQuantity α] in
theorem isSome_eq_of_rel {r : α → α → Prop} {x y : Option α} (h : Option.Rel r x y) :
    y.isSome = x.isSome := by
  cases h <;> rfl

/-- If one weight rises and no more is given out than before, its owner gains and all others
lose. -/
theorem claim_compare {weight : Contender α → Option α} {level level' : α}
    (hw : ∀ c w, weight c = some w → 0 < w) (hc : ∀ x ∈ c :: others, x.Admissible)
    (hrel : Option.Rel (· ≤ ·) (weight c) (weight (c.atPrice price))) (hlevel : 0 ≤ level')
    (hsum : totalAt level ((c :: others).map fun x => x.claim (weight x))
      = totalAt level' ((c.atPrice price :: others).map fun x => x.claim (weight x))) :
    (c.claim (weight c)).atLevel level
        ≤ ((c.atPrice price).claim (weight (c.atPrice price))).atLevel level' ∧
      ∀ o ∈ others,
        (o.claim (weight o)).atLevel level' ≤ (o.claim (weight o)).atLevel level := by
  rw [List.forall_mem_cons] at hc
  obtain ⟨hown, hrest⟩ := atLevel_compare (c.claim (weight c))
    ((c.atPrice price).claim (weight (c.atPrice price))) (regular_claim hw hc.1)
    (regular_claims hw hc.2) hlevel rfl (getD_le_of_rel hrel) hsum
  exact ⟨hown, List.forall_mem_map.1 hrest⟩

/-- A weight that rises, among the free or among the priced contenders. -/
theorem Levels.raise (hw : Weighing free priced) (hc : ∀ x ∈ c :: others, x.Admissible)
    (hfree : Option.Rel (· ≤ ·) (free c) (free (c.atPrice price)))
    (hpriced : Option.Rel (· ≤ ·) (priced c) (priced (c.atPrice price)))
    (h : Levels free priced (c :: others) first second)
    (h' : Levels free priced (c.atPrice price :: others) first' second') :
    Gains c price others (Contender.shareAt free priced first second)
      (Contender.shareAt free priced first' second') := by
  have hcapacity : ∀ weight : Contender α → Option α, (∀ c w, weight c = some w → 0 < w) →
      Option.Rel (· ≤ ·) (weight c) (weight (c.atPrice price)) →
      totalCapacity ((c.atPrice price :: others).map fun x => x.claim (weight x))
        = totalCapacity ((c :: others).map fun x => x.claim (weight x)) := by
    intro weight hpos hrel
    rw [List.map_cons, List.map_cons, totalCapacity_cons, totalCapacity_cons,
      Contender.capacity_claim hpos, Contender.capacity_claim hpos, isSome_eq_of_rel hrel]
    rfl
  have hopen : openMarket (c.atPrice price :: others) = openMarket (c :: others) := rfl
  have hfirst := h'.first_total
  have hsecond := h'.second_total
  rw [hopen, hcapacity free hw.free_pos hfree, ← h.first_total] at hfirst
  rw [hopen, hcapacity priced hw.priced_pos hpriced, hfirst, ← h.second_total] at hsecond
  obtain ⟨hown, hrest⟩ := claim_compare hw.free_pos hc hfree h'.first_nonneg hfirst.symm
  obtain ⟨hown', hrest'⟩ := claim_compare hw.priced_pos hc hpriced h'.second_nonneg hsecond.symm
  exact ⟨add_le_add_right (add_le_add hown hown') _,
    fun o ho => add_le_add_right (add_le_add (hrest o ho) (hrest' o ho)) _⟩

/-- What is taken of a pool before and after a claim on what free claims leave comes to be a free
claim: it takes no less, and the free claims as well as the others take no more. -/
theorem taken_compare {pool limit free priced own own' taken taken' rest rest' : α}
    (hfirst : taken = min pool free)
    (hsecond : own + rest = takenOf (pool - taken) (limit + priced))
    (hfirst' : own' + taken' = min pool (limit + free))
    (hsecond' : rest' = takenOf (pool - (own' + taken')) priced)
    (hown0 : 0 ≤ own) (hown : own ≤ limit) (hown' : 0 ≤ own') (htaken' : taken' ≤ free)
    (hrest : 0 ≤ rest) :
    own ≤ own' ∧ taken' ≤ taken ∧ rest' ≤ rest := by
  have hpool' : own' + taken' ≤ pool := hfirst'.trans_le (min_le_left _ _)
  have hless : taken' ≤ taken := by
    rw [hfirst]
    exact le_min (by linarith) htaken'
  refine ⟨?_, hless, ?_⟩
  · have hpool : taken ≤ pool := hfirst.trans_le (min_le_left _ _)
    have hleft := hsecond.trans_le (takenOf_le (sub_nonneg.2 hpool) _)
    have hfree : taken ≤ free := hfirst.trans_le (min_le_right _ _)
    have hgain : own + taken ≤ own' + taken' := by
      rw [hfirst']
      exact le_min (by linarith) (by linarith)
    linarith
  · by_cases hlarge : Quantity.shareTolerance < pool - (own' + taken')
    · -- Something is left, so that all free claims are full before and after.
      have htol : (0 : α) < Quantity.shareTolerance := Quantity.shareTolerance_pos
      have hfull' : own' + taken' = limit + free := by
        rcases min_choice pool (limit + free) with hmin | hmin
        · rw [hfirst', hmin, sub_self] at hlarge
          exact absurd hlarge htol.not_gt
        · rw [hfirst', hmin]
      rw [hfull'] at hlarge hsecond'
      have hfull : taken = free := by
        rw [hfirst, min_eq_right]
        linarith
      rw [hfull, takenOf, if_pos (by linarith)] at hsecond
      rw [takenOf, if_pos hlarge] at hsecond'
      have hshift : min (pool - (limit + free)) priced + limit
          = min (pool - free) (limit + priced) := by
        rw [min_add, add_comm priced]
        congr 1
        ring
      linarith
    · rw [hsecond', takenOf, if_neg hlarge]
      exact hrest

/-- A priced contender that comes to be free. -/
theorem Levels.promote (hw : Weighing free priced) (hc : ∀ x ∈ c :: others, x.Admissible) {v w : α}
    (hfree : free c = none) (hpriced : priced c = some w)
    (hfree' : free (c.atPrice price) = some v) (hpriced' : priced (c.atPrice price) = none)
    (h : Levels free priced (c :: others) first second)
    (h' : Levels free priced (c.atPrice price :: others) first' second') :
    Gains c price others (Contender.shareAt free priced first second)
      (Contender.shareAt free priced first' second') := by
  rw [List.forall_mem_cons] at hc
  have hregular := regular_claims hw.free_pos hc.2
  have hregular' := regular_claims hw.priced_pos hc.2
  have hown : (c.claim (some w)).Regular := hpriced ▸ regular_claim hw.priced_pos hc.1
  have hown' : ((c.atPrice price).claim (some v)).Regular :=
    ⟨fun u hu => Option.some.inj hu ▸ (hw.free_pos _ v hfree').le, hc.1.limit_nonneg⟩
  have hidle := atLevel_claim_none hc.1
  have hidle' : ∀ level, ((c.atPrice price).claim none).atLevel level = 0 := hidle
  have hlimit : (c.claim (some w)).capacity = c.capacityLimit :=
    if_pos (hw.priced_pos c w hpriced)
  have hlimit' : ((c.atPrice price).claim (some v)).capacity = c.capacityLimit :=
    if_pos (hw.free_pos _ v hfree')
  have hopen : openMarket (c.atPrice price :: others) = openMarket (c :: others) := rfl
  obtain ⟨hfirst_nonneg, hsecond_nonneg, hfirst, hsecond⟩ := h
  obtain ⟨hfirst_nonneg', hsecond_nonneg', hfirst', hsecond'⟩ := h'
  simp only [List.map_cons, totalAt_cons, totalCapacity_cons, hfree, hpriced, hidle,
    Contender.capacity_claim_none, hlimit, zero_add] at hfirst hsecond
  simp only [List.map_cons, totalAt_cons, totalCapacity_cons, hfree', hpriced', hidle',
    Contender.capacity_claim_none, hlimit', hopen, zero_add] at hfirst' hsecond'
  obtain ⟨hgain, hfewer, hless⟩ := taken_compare hfirst hsecond hfirst' hsecond'
    (Claim.atLevel_nonneg hown hsecond_nonneg) (Claim.atLevel_le_limit _ _)
    (Claim.atLevel_nonneg hown' hfirst_nonneg') (totalAt_le_totalCapacity hregular first')
    (totalAt_nonneg hregular' hsecond_nonneg)
  constructor
  · simp only [Contender.shareAt, hfree, hpriced, hfree', hpriced', hidle, hidle', zero_add,
      add_zero]
    exact add_le_add_right hgain _
  · have hothers := List.forall_mem_map.1 (atLevel_le_of_totalAt_le hregular hfewer)
    have hothers' := List.forall_mem_map.1 (atLevel_le_of_totalAt_le hregular' hless)
    exact fun o ho => add_le_add_right (add_le_add (hothers o ho) (hothers' o ho)) _

/-- Who is favoured does not lose, and nobody else gains. -/
theorem Levels.favour (hw : Weighing free priced) (hc : ∀ x ∈ c :: others, x.Admissible)
    (hfavoured : Favoured free priced c (c.atPrice price))
    (h : Levels free priced (c :: others) first second)
    (h' : Levels free priced (c.atPrice price :: others) first' second') :
    Gains c price others (Contender.shareAt free priced first second)
      (Contender.shareAt free priced first' second') := by
  cases hfavoured with
  | raised hfree hpriced => exact h.raise hw hc hfree hpriced h'
  | freed v w hfree hpriced hfree' hpriced' =>
    exact h.promote hw hc hfree hpriced hfree' hpriced' h'

end Levels

namespace Contender

variable {c : Contender α} {price : α}

/-- The weight at a negative exponent: a contender is priced if it has a price and its weight is
finite, and free otherwise. -/
theorem weight_of_exponent_neg (hexponent : c.logitExponent < 0) (hshare : 0 < c.shareWeight)
    (hfinite : Quantity.isFinite c.price = true) :
    c.weight
      = if 0 < c.price ∧
            Quantity.isFinite (c.shareWeight * Quantity.pow c.price c.logitExponent) = true
          then .priced (c.shareWeight * Quantity.pow c.price c.logitExponent)
        else .free c.shareWeight := by
  have hin : (Quantity.isUndefined c.shareWeight || decide (c.shareWeight ≤ 0) ||
      !Quantity.isFinite c.price) = false := by
    simp [hshare, hfinite]
  rw [weight, logitWeight, hin, if_neg Bool.false_ne_true]
  by_cases hzero : c.price ≤ 0
  · rw [if_pos hzero, if_pos hexponent, if_neg fun h => absurd hzero (not_le.2 h.1)]
  · rw [if_neg hzero]
    simp [not_le.1 hzero]

theorem weights_of_free {w : α} (hfixed : c.fixedShare = none) (h : c.weight = .free w) :
    c.freeWeight = some w ∧ c.pricedWeight = none := by
  simp [freeWeight, pricedWeight, hfixed, h]

theorem weights_of_priced {w : α} (hfixed : c.fixedShare = none) (h : c.weight = .priced w)
    (hpos : 0 < w) : c.freeWeight = none ∧ c.pricedWeight = some w := by
  simp [freeWeight, pricedWeight, hfixed, h, hpos]

theorem weights_of_not_eligible (h : c.isEligible ≠ true) :
    c.freeWeight = none ∧ c.pricedWeight = none := by
  simpa [isEligible, hasWeight] using h

/-- Whether a contender has a weight at a negative exponent does not depend on its price. -/
theorem isEligible_atPrice (hexponent : c.logitExponent < 0)
    (hfinite : Quantity.isFinite c.price = true) (hfinite' : Quantity.isFinite price = true) :
    (c.atPrice price).isEligible = c.isEligible := by
  have hpart : (c.atPrice price).TakesPart ↔ c.TakesPart :=
    ⟨fun h => ⟨h.1, hfinite, .inr hexponent.le⟩, fun h => ⟨h.1, hfinite', .inr hexponent.le⟩⟩
  rw [Bool.eq_iff_iff, isEligible_iff, isEligible_iff, hpart]
  rfl

/-- A lower price favours a contender at a negative exponent. -/
theorem favoured_atPrice
    (hpow : ∀ x y e : α, e < 0 → 0 < x → x ≤ y → Quantity.pow y e ≤ Quantity.pow x e)
    (hbounded : ∀ x y : α, 0 ≤ x → x ≤ y → Quantity.isFinite y = true →
      Quantity.isFinite x = true)
    (hexponent : c.logitExponent < 0) (hfinite : Quantity.isFinite c.price = true)
    (hfinite' : Quantity.isFinite price = true) (hle : price ≤ c.price) :
    Favoured freeWeight pricedWeight c (c.atPrice price) := by
  by_cases hin : c.isEligible = true
  · obtain ⟨hfixed, hshare, -⟩ := isEligible_iff.1 hin
    have hweight := weight_of_exponent_neg hexponent hshare hfinite
    have hweight' := weight_of_exponent_neg (c := c.atPrice price) hexponent hshare hfinite'
    have hpos : ∀ {x : α}, 0 < x → 0 < c.shareWeight * Quantity.pow x c.logitExponent :=
      fun hx => mul_pos hshare (ExactQuantity.pow_positive _ hx)
    have hrise : 0 < price → c.shareWeight * Quantity.pow c.price c.logitExponent
        ≤ c.shareWeight * Quantity.pow price c.logitExponent := fun hprice =>
      mul_le_mul_of_nonneg_left (hpow _ _ _ hexponent hprice hle) hshare.le
    by_cases hpriced' : 0 < price ∧
        Quantity.isFinite (c.shareWeight * Quantity.pow price c.logitExponent) = true
    · -- Priced at the lower price means priced at the higher one, with less weight.
      have hprice := hpriced'.1.trans_le hle
      have hpriced : 0 < c.price ∧
          Quantity.isFinite (c.shareWeight * Quantity.pow c.price c.logitExponent) = true :=
        ⟨hprice, hbounded _ _ (hpos hprice).le (hrise hpriced'.1) hpriced'.2⟩
      rw [if_pos hpriced] at hweight
      obtain ⟨hf, hp⟩ := weights_of_priced hfixed hweight (hpos hprice)
      obtain ⟨hf', hp'⟩ := weights_of_priced (c := c.atPrice price) hfixed
        (hweight'.trans (if_pos hpriced')) (hpos hpriced'.1)
      refine .raised ?_ ?_
      · rw [hf, hf']
        exact .none
      · rw [hp, hp']
        exact .some (hrise hpriced'.1)
    · obtain ⟨hf', hp'⟩ := weights_of_free (c := c.atPrice price) hfixed
        (hweight'.trans (if_neg hpriced'))
      split at hweight
      · next hpriced =>
        obtain ⟨hf, hp⟩ := weights_of_priced hfixed hweight (hpos hpriced.1)
        exact .freed _ _ hf hp hf' hp'
      · obtain ⟨hf, hp⟩ := weights_of_free hfixed hweight
        refine .raised ?_ ?_
        · rw [hf, hf']
          exact .some le_rfl
        · rw [hp, hp']
          exact .none
  · have hout : (c.atPrice price).isEligible ≠ true := by
      rwa [isEligible_atPrice hexponent hfinite hfinite']
    obtain ⟨hf, hp⟩ := weights_of_not_eligible hin
    obtain ⟨hf', hp'⟩ := weights_of_not_eligible hout
    refine .raised ?_ ?_
    · rw [hf, hf']
      exact .none
    · rw [hp, hp']
      exact .none

end Contender

section Market

variable {c : Contender α} {price : α} {cs cs' others : List (Contender α)}

theorem shareOpenMarket_cheaper {free priced : Contender α → Option α} (hw : Weighing free priced)
    (hcs : cs.Perm (c :: others)) (hcs' : cs'.Perm (c.atPrice price :: others))
    (hfavoured : Favoured free priced c (c.atPrice price)) (hc : ∀ x ∈ cs, x.Admissible)
    (hc' : ∀ x ∈ cs', x.Admissible) {awards awards' : List (Award α)}
    (h : shareOpenMarket cs free priced = .ok awards)
    (h' : shareOpenMarket cs' free priced = .ok awards') :
    ∃ share share', awards.map Award.share = cs.map share ∧
      awards'.map Award.share = cs'.map share' ∧ Gains c price others share share' := by
  obtain ⟨first, second, hlevels, hshares⟩ := shareOpenMarket_levels hw hc h
  obtain ⟨first', second', hlevels', hshares'⟩ := shareOpenMarket_levels hw hc' h'
  have hadmissible : ∀ x ∈ c :: others, x.Admissible := fun x hx => hc x (hcs.mem_iff.2 hx)
  exact ⟨_, _, hshares, hshares',
    (hlevels.perm hcs).favour hw hadmissible hfavoured (hlevels'.perm hcs')⟩

theorem allocate_cheaper_perm
    (hpow : ∀ x y e : α, e < 0 → 0 < x → x ≤ y → Quantity.pow y e ≤ Quantity.pow x e)
    (hbounded : ∀ x y : α, 0 ≤ x → x ≤ y → Quantity.isFinite y = true →
      Quantity.isFinite x = true)
    (hexponent : c.logitExponent < 0) (hfinite : Quantity.isFinite c.price = true)
    (hfinite' : Quantity.isFinite price = true) (hle : price ≤ c.price)
    (hcs : cs.Perm (c :: others)) (hcs' : cs'.Perm (c.atPrice price :: others))
    {a a' : Allocation α} (h : allocate cs = .ok a) (h' : allocate cs' = .ok a') :
    ∃ share share', a.shares = cs.map share ∧ a'.shares = cs'.map share' ∧
      Gains c price others share share' := by
  have hne : cs ≠ [] := fun hempty => by simp [hempty] at hcs
  have hne' : cs' ≠ [] := fun hempty => by simp [hempty] at hcs'
  have hfixed : fixedTotal cs' = fixedTotal cs := by
    rw [← fixedTotal_perm hcs', ← fixedTotal_perm hcs]
    rfl
  have hneeded : needsFallback cs' = needsFallback cs := by
    rw [← needsFallback_perm hcs', ← needsFallback_perm hcs, Bool.eq_iff_iff, needsFallback_iff,
      needsFallback_iff, List.any_cons, List.any_cons,
      Contender.isEligible_atPrice hexponent hfinite hfinite']
    rfl
  obtain ⟨⟨hc, -⟩, hby⟩ := allocate_eq_ok hne h
  obtain ⟨⟨hc', -⟩, hby'⟩ := allocate_eq_ok hne' h'
  cases hby with
  | logit hfits hshared =>
    cases hby' with
    | logit _ hshared' =>
      exact shareOpenMarket_cheaper weighing_logit hcs hcs'
        (Contender.favoured_atPrice hpow hbounded hexponent hfinite hfinite' hle) hc hc' hshared
        hshared'
    | scaled hneeded' _ => simp [hneeded, hfits] at hneeded'
    | equal hneeded' _ _ => simp [hneeded, hfits] at hneeded'
  | scaled hneeds hsome =>
    cases hby' with
    | logit hfits' _ => simp [hneeded, hneeds] at hfits'
    | scaled _ _ =>
      refine ⟨fun x => x.fixedPart / fixedTotal cs, fun x => x.fixedPart / fixedTotal cs, ?_, ?_,
        le_rfl, fun o _ => le_rfl⟩
      · simp [Allocation.shares, scaledFixedShares, Contender.fixedPart]
      · simp [Allocation.shares, scaledFixedShares, Contender.fixedPart, hfixed]
    | equal _ hnone _ => exact absurd hsome (not_lt.2 (hfixed ▸ hnone))
  | equal hneeds hnone hshared =>
    cases hby' with
    | logit hfits' _ => simp [hneeded, hneeds] at hfits'
    | scaled _ hsome => exact absurd hsome (not_lt.2 (hfixed ▸ hnone))
    | equal _ _ hshared' =>
      have hequal : Option.Rel (· ≤ ·) c.equalWeight (c.atPrice price).equalWeight := by
        change Option.Rel _ c.equalWeight c.equalWeight
        cases c.equalWeight with
        | none => exact .none
        | some w => exact .some le_rfl
      exact shareOpenMarket_cheaper weighing_equal hcs hcs' (.raised .none hequal) hc hc' hshared
        hshared'

end Market

/-- If a contender becomes cheaper at a negative exponent, its share does not fall and nobody else's
rises, whether or not it comes to be free, as long as both markets can be shared out. Lower prices
have higher powers, and what is less than something finite is finite. -/
theorem allocate_cheaper
    (hpow : ∀ x y e : α, e < 0 → 0 < x → x ≤ y → Quantity.pow y e ≤ Quantity.pow x e)
    (hbounded : ∀ x y : α, 0 ≤ x → x ≤ y → Quantity.isFinite y = true →
      Quantity.isFinite x = true)
    {cs : List (Contender α)} {i : ℕ} {c : Contender α} {price : α} (hi : cs[i]? = some c)
    (hexponent : c.logitExponent < 0) (hfinite : Quantity.isFinite c.price = true)
    (hfinite' : Quantity.isFinite price = true) (hle : price ≤ c.price) {a a' : Allocation α}
    (h : allocate cs = .ok a) (h' : allocate (cs.set i (c.atPrice price)) = .ok a') :
    (∃ s s', a.shares[i]? = some s ∧ a'.shares[i]? = some s' ∧ s ≤ s') ∧
      ∀ j, j ≠ i → j < cs.length →
        ∃ s s', a.shares[j]? = some s ∧ a'.shares[j]? = some s' ∧ s' ≤ s := by
  obtain ⟨hlt, rfl⟩ := List.getElem?_eq_some_iff.1 hi
  obtain ⟨share, share', hshares, hshares', hown, hothers⟩ :=
    allocate_cheaper_perm hpow hbounded hexponent hfinite hfinite' hle
      (List.getElem_cons_eraseIdx_perm hlt).symm (List.set_perm_cons_eraseIdx hlt _) h h'
  rw [hshares, hshares']
  constructor
  · exact ⟨share cs[i], share' (cs[i].atPrice price), by simp [hlt], by simp [hlt], hown⟩
  · intro j hj hlt'
    refine ⟨share cs[j], share' cs[j], by simp [hlt'], ?_, ?_⟩
    · rw [List.getElem?_map, List.getElem?_set_ne hj.symm]
      simp [hlt']
    · refine hothers _ (List.mem_eraseIdx_iff_getElem?.2 ⟨j, hj, ?_⟩)
      exact List.getElem?_eq_getElem hlt'

theorem pow_le_pow_of_exponent_neg (x y e : ℚ) (he : e < 0) (hx : 0 < x) (hxy : x ≤ y) :
    Quantity.pow y e ≤ Quantity.pow x e := by
  have hnum : 0 ≤ -e.num := neg_nonneg.2 (Rat.num_neg.2 he).le
  change y ^ e.num ≤ x ^ e.num
  rw [← neg_neg e.num, zpow_neg y (-e.num), zpow_neg x (-e.num)]
  exact inv_anti₀ (zpow_pos hx _) (zpow_le_zpow_left₀ hnum hx.le hxy)

/-- The first of two priced contenders costs ten and is offered at less than nothing next. Another
contender is free, and one has a fixed share. -/
def discountMarket : List (Contender ℚ) :=
  [⟨1, 10, -1, 3 / 5, none⟩, ⟨1, 10, -1, 1, none⟩, ⟨1, 0, -1, 1 / 5, none⟩,
    ⟨2, 5, -1, 1, some (1 / 10)⟩]

/-- The priced contenders share what the free one leaves. -/
def fullPriceAllocation : Allocation ℚ :=
  ⟨[⟨7 / 20, false⟩, ⟨7 / 20, false⟩, ⟨1 / 5, true⟩, ⟨1 / 10, false⟩], none⟩

/-- The first contender has its limit now and leaves less to the second. -/
def discountAllocation : Allocation ℚ :=
  ⟨[⟨3 / 5, true⟩, ⟨1 / 10, false⟩, ⟨1 / 5, true⟩, ⟨1 / 10, false⟩], none⟩

theorem discountMarket_cheaper :
    let c : Contender ℚ := ⟨1, 10, -1, 3 / 5, none⟩
    (discountMarket[0]? = some c ∧ c.logitExponent < 0 ∧ (-1 : ℚ) ≤ c.price ∧
        allocate discountMarket = .ok fullPriceAllocation ∧
        allocate (discountMarket.set 0 (c.atPrice (-1))) = .ok discountAllocation) ∧
      (∃ s s', fullPriceAllocation.shares[0]? = some s ∧
        discountAllocation.shares[0]? = some s' ∧ s ≤ s') ∧
      ∀ j, j ≠ 0 → j < discountMarket.length →
        ∃ s s', fullPriceAllocation.shares[j]? = some s ∧
          discountAllocation.shares[j]? = some s' ∧ s' ≤ s := by
  intro c
  have hexponent : c.logitExponent < 0 := by norm_num [c]
  have hle : (-1 : ℚ) ≤ c.price := by norm_num [c]
  have h : allocate discountMarket = .ok fullPriceAllocation := by with_unfolding_all rfl
  have h' : allocate (discountMarket.set 0 (c.atPrice (-1))) = .ok discountAllocation := by
    change allocate [⟨1, -1, -1, 3 / 5, none⟩, ⟨1, 10, -1, 1, none⟩, ⟨1, 0, -1, 1 / 5, none⟩,
      ⟨2, 5, -1, 1, some (1 / 10)⟩] = _
    with_unfolding_all rfl
  exact ⟨⟨rfl, hexponent, hle, h, h'⟩, allocate_cheaper pow_le_pow_of_exponent_neg
    (fun _ _ _ _ _ => rfl) rfl hexponent rfl rfl hle h h'⟩

end NestedLogit
