import NestedLogit.Proofs.Choice.Level

/-!
# How many passes are needed

Every pass over claims but the last limits one more of those that compete, so that the passes end if
there are more of them than competing claims. No smaller number will do in general: among claims
whose weights fall steeply, one becomes limited in each pass, and a given number of passes is not
enough for as many of them and one more, although their limits have room for the pool.

## Main definitions

- `Holding.isContesting` — holdings that a pass may still limit
- `steepClaims`, `Steep` — claims that become limited one by one, and holdings while they do

## Main statements

- `passes_converges` — more passes than competing holdings come to an end
- `passes_steepClaims` — no more passes than steep claims before the last do not
-/

namespace NestedLogit

variable {α : Type} [ExactQuantity α]

/-- Whether a claim takes part with a positive weight. -/
def Claim.competes (c : Claim α) : Bool :=
  c.weight.any (0 < ·)

namespace Holding

theorem competes_iff {h : Holding α} : h.competes = true ↔ h.Competes := by
  cases hw : h.weight <;> simp [Claim.competes, Competes, hw]

/-- Whether a holding is open and competes. -/
def isContesting (h : Holding α) : Bool :=
  !h.limited && h.competes

theorem limited_pass_of_fits {h : Holding α} {pool total : α}
    (ho : h.overflows pool total = false) : (h.pass pool total).limited = h.limited := by
  cases hw : h.openWeight with
  | none => rw [pass_of_closed hw]
  | some w => rw [pass_of_fits hw ho]

theorem isContesting_of_pass {h : Holding α} {pool total : α}
    (hc : (h.pass pool total).isContesting = true) : h.isContesting = true := by
  cases hw : h.openWeight with
  | none => rwa [pass_of_closed hw] at hc
  | some w =>
    cases ho : h.overflows pool total with
    | true => simp [pass_of_overflows ho, isContesting] at hc
    | false =>
      rw [pass_of_fits hw ho] at hc
      exact hc

theorem isContesting_of_overflows {h : Holding α} (hs : h.Sound) {pool total : α}
    (ho : h.overflows pool total = true) : h.isContesting = true := by
  obtain ⟨w, hw, hlt⟩ := limit_lt_of_overflows ho
  obtain ⟨hopen, hweight⟩ := openWeight_eq_some hw
  have hc := hs.competes_of_portion_pos hweight (hs.limit_nonneg.trans_lt hlt)
  simp [isContesting, hopen, competes_iff.2 hc]

theorem not_isContesting_pass {h : Holding α} {pool total : α}
    (ho : h.overflows pool total = true) : (h.pass pool total).isContesting = false := by
  simp [pass_of_overflows ho, isContesting]

end Holding

/-- Fewer members satisfy what a change takes away from some member and gives to none. -/
theorem countP_map_lt {β : Type} {p : β → Bool} {f : β → β} {xs : List β}
    (hkeep : ∀ x ∈ xs, p (f x) = true → p x = true)
    (hdrop : ∃ x ∈ xs, p x = true ∧ p (f x) = false) : (xs.map f).countP p < xs.countP p := by
  obtain ⟨x, hx, hp, hpf⟩ := hdrop
  have hkept : (xs.filter fun x => p (f x)).countP p = xs.countP fun x => p (f x) := by
    rw [List.countP_eq_length_filter (p := fun x => p (f x)), List.countP_eq_length]
    intro y hy
    exact hkeep y (List.mem_filter.1 hy).1 (List.mem_filter.1 hy).2
  have hlost : 0 < (xs.filter fun x => !p (f x)).countP p :=
    List.countP_pos_iff.2 ⟨x, List.mem_filter.2 ⟨hx, by simp [hpf]⟩, hp⟩
  have hsplit := List.countP_eq_countP_filter_add xs p fun x => p (f x)
  rw [List.countP_map]
  change xs.countP (fun x => p (f x)) < _
  omega

/-- Passes come to an end if there are more of them than holdings that are open and compete. -/
theorem passes_converges {pool : α} (fuel : ℕ) {hs : List (Holding α)}
    (hsound : ∀ h ∈ hs, h.Sound) (hle : (hs.map Holding.settled).sum ≤ pool)
    (hcount : hs.countP Holding.isContesting < fuel) : ∃ d, passes pool fuel hs = .ok d := by
  induction fuel generalizing hs with
  | zero => omega
  | succ fuel ih =>
    simp only [passes]
    split
    · exact ⟨_, rfl⟩
    · next ht =>
      split
      · next hany =>
        -- Somebody becomes limited, which leaves one holding less for the other passes.
        have ht : 0 < openTotal hs := not_le.1 ht
        obtain ⟨x, hx, ho⟩ := List.any_eq_true.1 hany
        have hfewer : (hs.map (Holding.pass (openPool pool hs) (openTotal hs))).countP
            Holding.isContesting < hs.countP Holding.isContesting := by
          refine countP_map_lt (fun y _ => Holding.isContesting_of_pass) ⟨x, hx, ?_, ?_⟩
          · exact Holding.isContesting_of_overflows (hsound x hx) ho
          · exact Holding.not_isContesting_pass ho
        exact ih (sound_map_pass hsound) (sum_settled_pass_le hsound hle ht) (by omega)
      · exact ⟨_, rfl⟩

theorem passes_eq_error {pool : α} {fuel : ℕ} {hs : List (Holding α)} {e : LimitError α}
    (h : passes pool fuel hs = .error e) : e = .notConverged := by
  induction fuel generalizing hs with
  | zero => exact (Except.error.inj h).symm
  | succ fuel ih =>
    simp only [passes] at h
    split at h
    · cases h
    · split at h
      · exact ih h
      · cases h

/-- A pool for which nobody competes is left over. -/
theorem distribute_idle {pool : α} {claims : List (Claim α)} (hpool : 0 ≤ pool)
    (h : ∀ c ∈ claims, c.weight = none) :
    distribute pool claims = .ok ⟨claims.map Holding.start, pool⟩ := by
  have hnone : (claims.map Holding.start).filterMap Holding.openWeight = [] :=
    List.filterMap_eq_nil_iff.2 (List.forall_mem_map.2 h)
  have htotal : openTotal (claims.map Holding.start) ≤ 0 := by
    rw [openTotal, hnone]
    exact le_rfl
  rw [distribute, maxLimitPasses, passes, if_pos htotal, openPool_start hpool]

/-- Sharing out a pool under limits fails only if as many claims compete as there are passes. -/
theorem distribute_eq_error {pool : α} {claims : List (Claim α)} (hpool : 0 ≤ pool)
    (hw : ∀ c ∈ claims, ∀ w, c.weight = some w → 0 ≤ w) (hl : ∀ c ∈ claims, 0 ≤ c.limit)
    {e : LimitError α} (h : distribute pool claims = .error e) :
    e = .notConverged ∧ maxLimitPasses ≤ claims.countP Claim.competes := by
  refine ⟨passes_eq_error h, ?_⟩
  by_contra hfew
  have hcount : (claims.map Holding.start).countP Holding.isContesting < maxLimitPasses := by
    rw [List.countP_map]
    exact not_le.1 hfew
  have hle : ((claims.map Holding.start).map Holding.settled).sum ≤ pool := by
    rwa [sum_settled_start]
  obtain ⟨d, hd⟩ := passes_converges maxLimitPasses (sound_map_start hw hl) hle hcount
  cases h.symm.trans hd

section Steep

variable {ε : α}

/-- Claims of which each has the part `ε` of the weight of the one before and `ε` for a limit, up to
the last, which could take a whole market. -/
def steepClaims (ε : α) : ℕ → α → List (Claim α)
  | 0, w => [⟨some w, 1⟩]
  | n + 1, w => ⟨some w, ε⟩ :: steepClaims ε n (ε * w)

theorem mem_steepClaims (hε : 0 < ε) (hε1 : ε ≤ 1) (n : ℕ) {w : α} (hw : 0 < w) :
    ∀ c ∈ steepClaims ε n w,
      ∃ v, c.weight = some v ∧ 0 < v ∧ v ≤ w ∧ ε ≤ c.limit ∧ c.limit ≤ 1 := by
  induction n generalizing w with
  | zero =>
    intro c hc
    obtain rfl := List.mem_singleton.1 hc
    exact ⟨w, rfl, hw, le_rfl, hε1, le_rfl⟩
  | succ n ih =>
    intro c hc
    rcases List.mem_cons.1 hc with rfl | hc
    · exact ⟨w, rfl, hw, le_rfl, le_rfl, hε1⟩
    · obtain ⟨v, hv, hpos, hle, hlimit⟩ := ih (mul_pos hε hw) c hc
      exact ⟨v, hv, hpos, hle.trans (mul_le_of_le_one_left hw.le hε1), hlimit⟩

/-- The first of the claims has all of the weight but for a part `ε`. -/
theorem sum_steepClaims (hε : 0 < ε) (n : ℕ) {w : α} (hw : 0 < w) :
    w ≤ ((steepClaims ε n w).filterMap Claim.weight).sum ∧
      ((steepClaims ε n w).filterMap Claim.weight).sum * (1 - ε) ≤ w := by
  induction n generalizing w with
  | zero => simpa [steepClaims, mul_sub] using (mul_pos hw hε).le
  | succ n ih =>
    obtain ⟨hlower, hupper⟩ := ih (mul_pos hε hw)
    simp only [steepClaims, List.filterMap_cons, List.sum_cons]
    constructor
    · exact le_add_of_nonneg_right ((mul_pos hε hw).le.trans hlower)
    · linarith [add_mul w ((steepClaims ε n (ε * w)).filterMap Claim.weight).sum (1 - ε)]

/-- Holdings of which some have reached the limit `ε`, while the others are open and have steep
claims. -/
structure Steep (ε : α) (n : ℕ) (w : α) (done rest : List (Holding α)) : Prop where
  done_limited : ∀ h ∈ done, h.limited = true ∧ h.share = ε
  claims_eq : rest.map Holding.toClaim = steepClaims ε n w
  rest_open : ∀ h ∈ rest, h.limited = false

namespace Steep

variable {n : ℕ} {w : α} {done rest : List (Holding α)} {first : Holding α}

theorem openTotal_eq (h : Steep ε n w done rest) :
    openTotal (done ++ rest) = ((steepClaims ε n w).filterMap Claim.weight).sum := by
  have hclosed : done.filterMap Holding.openWeight = [] := by
    rw [List.filterMap_eq_nil_iff]
    intro x hmem
    simp [Holding.openWeight, (h.done_limited x hmem).1]
  have hweights : rest.filterMap Holding.openWeight
      = (rest.map Holding.toClaim).filterMap Claim.weight := by
    rw [List.filterMap_map]
    refine List.filterMap_congr fun x hmem => ?_
    simp [Holding.openWeight, h.rest_open x hmem]
  rw [openTotal, Quantity.total_eq_sum, List.filterMap_append, hclosed, hweights, List.nil_append,
    h.claims_eq]

theorem openPool_eq (h : Steep ε n w done rest) (hle : (done.length : α) * ε ≤ 1) :
    openPool 1 (done ++ rest) = 1 - done.length * ε := by
  have hsettled : ((done ++ rest).map Holding.settled).sum = done.length * ε := by
    have hd : done.map Holding.settled = done.map fun _ => ε :=
      List.map_congr_left fun x hmem => by
        rw [Holding.settled_of_limited (h.done_limited x hmem).1, (h.done_limited x hmem).2]
    have hr : rest.map Holding.settled = rest.map fun _ => 0 :=
      List.map_congr_left fun x hmem => Holding.settled_of_open (h.rest_open x hmem)
    rw [List.map_append, List.sum_append, hd, hr]
    simp
  rw [NestedLogit.openPool_eq (hsettled.trans_le hle), hsettled]

/-- As long as the limits are small, a pool is left that exceeds the limit `ε` by far. -/
theorem openPool_bounds (h : Steep ε n w done rest) (hε : 0 < ε)
    (hsmall : ((done.length : α) + 2) * ε < 1) :
    openPool 1 (done ++ rest) ≤ 1 ∧ ε < openPool 1 (done ++ rest) * (1 - ε) := by
  have hk : (0 : α) ≤ done.length * ε := mul_nonneg (Nat.cast_nonneg _) hε.le
  rw [h.openPool_eq (by linarith)]
  constructor
  · linarith
  · nlinarith [mul_nonneg hk hε.le]

/-- The first of the open claims would get more than its limit. -/
theorem first_overflows (h : Steep ε (n + 1) w done (first :: rest)) (hε : 0 < ε) (hw : 0 < w)
    (hsmall : ((done.length : α) + 2) * ε < 1) :
    first.overflows (openPool 1 (done ++ first :: rest)) (openTotal (done ++ first :: rest))
      = true := by
  obtain ⟨hlower, hupper⟩ := sum_steepClaims hε (n + 1) hw
  rw [← h.openTotal_eq] at hlower hupper
  obtain ⟨-, hmuch⟩ := h.openPool_bounds hε hsmall
  have hpool := openPool_nonneg 1 (done ++ first :: rest)
  generalize openPool 1 (done ++ first :: rest) = pool at *
  generalize openTotal (done ++ first :: rest) = total at *
  have ht : 0 < total := hw.trans_le hlower
  obtain ⟨hfirst, -⟩ := List.cons.inj h.claims_eq
  have hweight : first.openWeight = some w := by
    simp [Holding.openWeight, h.rest_open first List.mem_cons_self, congrArg Claim.weight hfirst]
  have hlimit : first.limit = ε := congrArg Claim.limit hfirst
  have hlt : ε < portion pool total w := by
    rw [portion, if_pos ht, lt_div_iff₀ ht]
    calc ε * total < pool * (1 - ε) * total := mul_lt_mul_of_pos_right hmuch ht
      _ = pool * (total * (1 - ε)) := by ring
      _ ≤ pool * w := mul_le_mul_of_nonneg_left hupper hpool
  simpa [Holding.overflows, hweight, hlimit] using hlt

theorem others_fit (h : Steep ε (n + 1) w done (first :: rest)) (hε : 0 < ε) (hw : 0 < w)
    (hsmall : ((done.length : α) + 2) * ε < 1) :
    ∀ x ∈ rest, x.overflows (openPool 1 (done ++ first :: rest))
      (openTotal (done ++ first :: rest)) = false := by
  intro x hmem
  obtain ⟨hlower, -⟩ := sum_steepClaims hε (n + 1) hw
  rw [← h.openTotal_eq] at hlower
  obtain ⟨hpool, -⟩ := h.openPool_bounds hε hsmall
  generalize openPool 1 (done ++ first :: rest) = pool at *
  generalize openTotal (done ++ first :: rest) = total at *
  have ht : 0 < total := hw.trans_le hlower
  have hε1 : ε ≤ 1 := by
    have hk : (0 : α) ≤ done.length * ε := mul_nonneg (Nat.cast_nonneg _) hε.le
    linarith
  obtain ⟨-, hothers⟩ := List.cons.inj h.claims_eq
  obtain ⟨v, hv, hpos, hle, hlimit, -⟩ := mem_steepClaims hε hε1 n (mul_pos hε hw) x.toClaim
    (hothers ▸ List.mem_map_of_mem hmem)
  have hweight : x.openWeight = some v := by
    simp [Holding.openWeight, h.rest_open x (List.mem_cons_of_mem _ hmem), hv]
  have hfits : portion pool total v ≤ ε := by
    rw [portion, if_pos ht, div_le_iff₀ ht]
    calc pool * v ≤ v := mul_le_of_le_one_left hpos.le hpool
      _ ≤ ε * w := hle
      _ ≤ ε * total := mul_le_mul_of_nonneg_left hlower hε.le
  simpa [Holding.overflows, hweight] using hfits.trans hlimit

/-- A pass limits the first of the open claims and leaves the others open. -/
theorem pass (h : Steep ε (n + 1) w done (first :: rest)) {pool total : α}
    (hfull : first.overflows pool total = true)
    (hfits : ∀ x ∈ rest, x.overflows pool total = false) :
    (done ++ first :: rest).map (Holding.pass pool total)
        = (done ++ [first.pass pool total]) ++ rest.map (Holding.pass pool total) ∧
      Steep ε n (ε * w) (done ++ [first.pass pool total])
        (rest.map (Holding.pass pool total)) := by
  obtain ⟨hfirst, hothers⟩ := List.cons.inj h.claims_eq
  constructor
  · have hsame : done.map (Holding.pass pool total) = done.map fun x => x := by
      refine List.map_congr_left fun x hmem => Holding.pass_of_closed ?_
      simp [Holding.openWeight, (h.done_limited x hmem).1]
    rw [List.map_append, hsame, List.map_id', List.map_cons, List.append_assoc,
      List.singleton_append]
  · refine ⟨?_, ?_, ?_⟩
    · intro x hmem
      rcases List.mem_append.1 hmem with hmem | hmem
      · exact h.done_limited x hmem
      · rw [List.mem_singleton.1 hmem, Holding.pass_of_overflows hfull]
        exact ⟨rfl, congrArg Claim.limit hfirst⟩
    · rw [map_toClaim_pass]
      exact hothers
    · refine List.forall_mem_map.2 fun x hmem => ?_
      rw [Holding.limited_pass_of_fits (hfits x hmem)]
      exact h.rest_open x (List.mem_cons_of_mem _ hmem)

end Steep

/-- Passes over steep claims limit one of them after the other, and are not done before the last. -/
theorem passes_steepClaims (hε : 0 < ε) (fuel n : ℕ) {w : α} (hw : 0 < w)
    {done rest : List (Holding α)} (hfuel : fuel ≤ n)
    (hsmall : ((done.length : α) + fuel + 1) * ε < 1) (h : Steep ε n w done rest) :
    passes 1 fuel (done ++ rest) = .error .notConverged := by
  induction fuel generalizing n w done rest with
  | zero => rfl
  | succ fuel ih =>
    obtain ⟨n, rfl⟩ : ∃ m, n = m + 1 := ⟨n - 1, by omega⟩
    obtain ⟨first, rest, rfl, -⟩ := List.map_eq_cons_iff.1 h.claims_eq
    push_cast at hsmall
    have hsmall' : ((done.length : α) + 2) * ε < 1 := by
      have hf : (0 : α) ≤ fuel * ε := mul_nonneg (Nat.cast_nonneg _) hε.le
      linarith
    have hfull := h.first_overflows hε hw hsmall'
    obtain ⟨hnext, hsteep⟩ := h.pass hfull (h.others_fit hε hw hsmall')
    have ht : ¬openTotal (done ++ first :: rest) ≤ 0 := by
      rw [h.openTotal_eq]
      exact not_le.2 (hw.trans_le (sum_steepClaims hε (n + 1) hw).1)
    rw [passes]
    dsimp only
    rw [if_neg ht, if_pos (List.any_eq_true.2 ⟨first, by simp, hfull⟩), hnext]
    refine ih n (mul_pos hε hw) (by omega) ?_ hsteep
    rw [List.length_append, List.length_singleton]
    push_cast
    linarith

/-- As many steep claims as there are passes, and one more, cannot be shared out. -/
theorem distribute_steepClaims (hε : 0 < ε) (hsmall : ((maxLimitPasses : α) + 1) * ε < 1) {n : ℕ}
    (hn : maxLimitPasses ≤ n) : distribute 1 (steepClaims ε n 1) = .error .notConverged := by
  rw [distribute, ← List.nil_append ((steepClaims ε n 1).map Holding.start)]
  refine passes_steepClaims hε maxLimitPasses n one_pos hn (by simpa using hsmall) ?_
  exact ⟨by simp, map_toClaim_start _, List.forall_mem_map.2 fun c _ => rfl⟩

end Steep

end NestedLogit
