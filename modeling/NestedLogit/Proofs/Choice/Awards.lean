import NestedLogit.Choice.Recalibration
import NestedLogit.Proofs.Except
import NestedLogit.Proofs.Pointwise

/-!
# One award for each contender

Sharing out a market keeps the claims as they are and in their order, so that an allocation has
exactly one award for each contender, with or without recalibration. None of this depends on the
arithmetic.

## Main statements

- `allocate_length` — one award for each contender
- `recalibrate_adjusted` — what a recalibration leaves, and that its outcome is the allocation of it
- `recalibrate_allocates` — a recalibration ends with the allocation of what it leaves
-/

namespace NestedLogit

variable {α : Type} [Quantity α]

@[simp] theorem Holding.toClaim_pass (pool total : α) (h : Holding α) :
    (h.pass pool total).toClaim = h.toClaim := by
  unfold Holding.pass
  split
  · split <;> rfl
  · rfl

/-- A pass keeps the claims, whatever is shared out in it. -/
theorem map_toClaim_pass (pool total : α) (hs : List (Holding α)) :
    (hs.map (Holding.pass pool total)).map Holding.toClaim = hs.map Holding.toClaim := by
  rw [List.map_map]
  exact List.map_congr_left fun h _ => h.toClaim_pass pool total

theorem map_toClaim_start (claims : List (Claim α)) :
    (claims.map Holding.start).map Holding.toClaim = claims := by
  rw [List.map_map]
  exact List.map_id'' (fun _ => rfl) claims

/-- The passes end with holdings of the claims they start with. -/
theorem passes_claims {pool : α} {fuel : Nat} {hs : List (Holding α)} {d : Distribution α}
    (h : passes pool fuel hs = .ok d) :
    d.holdings.map Holding.toClaim = hs.map Holding.toClaim := by
  induction fuel generalizing hs with
  | zero => cases h
  | succ fuel ih =>
    simp only [passes] at h
    split at h
    · cases h
      rfl
    · split at h
      · rw [ih h, map_toClaim_pass]
      · cases h
        exact map_toClaim_pass _ _ hs

theorem distribute_claims {pool : α} {claims : List (Claim α)} {d : Distribution α}
    (h : distribute pool claims = .ok d) : d.holdings.map Holding.toClaim = claims := by
  rw [passes_claims h, map_toClaim_start]

theorem shareLeftover_claims {rest : α} {claims : List (Claim α)} {hs : List (Holding α)}
    (h : shareLeftover rest claims = .ok hs) : hs.map Holding.toClaim = claims := by
  unfold shareLeftover at h
  split at h
  · obtain ⟨d, hd, h⟩ := bind_eq_ok.1 h
    split at h
    · cases h
      exact distribute_claims hd
    · cases h
  · cases h
    exact map_toClaim_start claims

theorem shareOpenMarket_length {cs : List (Contender α)} {free priced : Contender α → Option α}
    {awards : List (Award α)} (h : shareOpenMarket cs free priced = .ok awards) :
    awards.length = cs.length := by
  obtain ⟨first, hfirst, h⟩ := bind_eq_ok.1 (mapError_eq_ok.1 h)
  obtain ⟨second, hsecond, h⟩ := bind_eq_ok.1 h
  have hfirst := congrArg List.length (distribute_claims hfirst)
  have hsecond := congrArg List.length (shareLeftover_claims hsecond)
  simp only [List.length_map] at hfirst hsecond
  cases h
  simp [hfirst, hsecond]

theorem allocateByFallback_length {cs : List (Contender α)} {a : Allocation α}
    (h : allocateByFallback cs = .ok a) : a.awards.length = cs.length := by
  unfold allocateByFallback at h
  split at h
  · cases h
    simp [scaledFixedShares]
  · split at h
    · cases h
    · obtain ⟨awards, hawards, rfl⟩ := map_eq_ok.1 h
      exact shareOpenMarket_length hawards

/-- An allocation has one award for each contender. -/
theorem allocate_length {cs : List (Contender α)} {a : Allocation α} (h : allocate cs = .ok a) :
    a.awards.length = cs.length := by
  unfold allocate at h
  split at h
  · next hempty =>
    cases h
    rw [List.isEmpty_iff.1 hempty]
    rfl
  · obtain ⟨_, _, h⟩ := bind_eq_ok.1 h
    unfold allocateChecked at h
    split at h
    · exact allocateByFallback_length h
    · obtain ⟨awards, hawards, rfl⟩ := map_eq_ok.1 h
      exact shareOpenMarket_length hawards

theorem allocate_length_shares {cs : List (Contender α)} {a : Allocation α}
    (h : allocate cs = .ok a) : a.shares.length = cs.length := by
  rw [Allocation.shares, List.length_map, allocate_length h]

namespace Aim

variable {x : Aim α} {share weight : α}

theorem adjust_of_none (h : x.adjustment share = none) : x.adjust share = x := by
  rw [adjust, h]

theorem adjust_of_some (h : x.adjustment share = some weight) :
    x.adjust share = { x with contender := { x.contender with shareWeight := weight } } := by
  rw [adjust, h]

end Aim

/-- A pass over given shares: if nobody is to be adjusted, the passes end with them, and otherwise
they go on from what the adjusted contenders are awarded. -/
theorem recalibrationPasses_succ {aims : List (Aim α)} {a : Allocation α} {share : Aim α → α}
    (ha : a.shares = aims.map share) (fuel : Nat) :
    (∀ x ∈ aims, x.adjustment (share x) = none) ∧
        recalibrationPasses (fuel + 1) aims a = ⟨aims.map Aim.contender, .ok a⟩ ∨
      ∀ next, allocate ((aims.map fun x => x.adjust (share x)).map Aim.contender) = .ok next →
        recalibrationPasses (fuel + 1) aims a
          = recalibrationPasses fuel (aims.map fun x => x.adjust (share x)) next := by
  have hzip : aims.zip (aims.map share) = aims.map fun x => (x, share x) := by
    simpa using List.zip_map' (f := id) (g := share) (l := aims)
  rw [recalibrationPasses, ha, hzip, List.zipWith_map_right, List.zipWith_self]
  split
  · right
    intro next hnext
    dsimp only
    rw [hnext]
  · next hstill =>
    refine .inl ⟨fun x hx => ?_, rfl⟩
    by_contra hsome
    have hmem := List.mem_map_of_mem (f := fun x => (x, share x)) hx
    exact hstill (List.any_eq_true.2 ⟨_, hmem, Option.isSome_iff_ne_none.2 hsome⟩)

section Adjustments

variable {R : Aim α → Aim α → Prop} (refl : ∀ x, R x x)
  (trans : ∀ {x y z}, R x y → R y z → R x z) (adjust : ∀ x share, R x (x.adjust share))

include refl trans adjust

/-- What passes leave: aims that are related to those before as every adjustment relates them, and
the outcome of an allocation of these. -/
theorem recalibrationPasses_adjusted (fuel : Nat) {aims : List (Aim α)} {a : Allocation α}
    (h : allocate (aims.map Aim.contender) = .ok a) :
    ∃ left, List.Forall₂ R aims left ∧
      recalibrationPasses fuel aims a =
        ⟨left.map Aim.contender, allocate (left.map Aim.contender)⟩ := by
  induction fuel generalizing aims a with
  | zero =>
    refine ⟨aims, List.forall₂_same.2 fun x _ => refl x, ?_⟩
    rw [recalibrationPasses, h]
  | succ fuel ih =>
    rw [recalibrationPasses]
    split
    · -- There is a share for each aim, so that none is lost when they are adjusted.
      have hlength : a.shares.length = aims.length := by
        rw [allocate_length_shares h, List.length_map]
      have hstep : List.Forall₂ R aims (List.zipWith Aim.adjust aims a.shares) :=
        forall₂_zipWith_self adjust (Nat.le_of_eq hlength.symm)
      dsimp only
      cases hnext : allocate ((List.zipWith Aim.adjust aims a.shares).map Aim.contender) with
      | error e => exact ⟨_, hstep, by rw [hnext]⟩
      | ok next =>
        obtain ⟨left, hleft, hpasses⟩ := ih hnext
        exact ⟨left, forall₂_trans (R := R) trans hstep hleft, hpasses⟩
    · refine ⟨aims, List.forall₂_same.2 fun x _ => refl x, ?_⟩
      rw [h]

/-- What a recalibration leaves, whether it succeeds or fails. -/
theorem recalibrate_adjusted (aims : List (Aim α)) :
    ∃ left, List.Forall₂ R aims left ∧
      recalibrate aims = ⟨left.map Aim.contender, allocate (left.map Aim.contender)⟩ := by
  rw [recalibrate]
  cases h : allocate (aims.map Aim.contender) with
  | error e =>
    refine ⟨aims, List.forall₂_same.2 fun x _ => refl x, ?_⟩
    rw [h]
  | ok a => exact recalibrationPasses_adjusted refl trans adjust maxRecalibrationPasses h

end Adjustments

theorem recalibrate_allocates {aims : List (Aim α)} {b : Allocation α}
    (h : (recalibrate aims).outcome = .ok b) :
    allocate (recalibrate aims).contenders = .ok b ∧
      (recalibrate aims).contenders.length = aims.length := by
  obtain ⟨left, hleft, hrecalibrate⟩ := recalibrate_adjusted (R := fun _ _ => True)
    (fun _ => trivial) (fun _ _ => trivial) (fun _ _ => trivial) aims
  rw [hrecalibrate] at h ⊢
  exact ⟨h, by rw [List.length_map, hleft.length_eq]⟩

end NestedLogit
