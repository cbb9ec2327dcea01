import NestedLogit.Proofs.Choice.Settling
import NestedLogit.Calibration

/-!
# Targets for some

A recalibration brings targets for some of a number of contenders to what a hundred passes reach.
Targets are met within the tolerance if the passes settle, however small they are, and passes settle
after a few of them if the targets are few and of half of the market together. Passes that are cut
off leave all targets too large or too small by what the last one finds missing of the market, which
is little for targets of nine tenths of the market and not for targets of all but a hundredth. A
small target is then also off by the tolerance, within which it was left alone, and by what has
become of that since.

## Main definitions

- `Reached` — shares that are within an accuracy of the targets
- `leastCover`, `mostCover` — what the targets and the rest cover of the market before the last pass

## Main statements

- `Partial.narrow_of_few` — targets for which fifty passes leave little room
- `Partial.cover_near_one` — targets for which little of the market is missing, or in excess, in the
  last pass
- `recalibrate_partial` — what a recalibration makes of the targets
- `cutOff_missed` — targets that are missed because the passes are cut off
-/

namespace NestedLogit

variable {α : Type} [ExactQuantity α]

theorem recalibrationTolerance_eq : (recalibrationTolerance : α) = 1 / 1000000000000 := by
  simp [recalibrationTolerance]

/-- An output matches a positive target if it is not off by more than the accuracy times it. -/
theorem isWithinAccuracy_iff {output target accuracy : α} (htarget : 0 < target) :
    isWithinAccuracy output target accuracy = true ↔
      (1 - accuracy) * target ≤ output ∧ output ≤ (1 + accuracy) * target := by
  rw [isWithinAccuracy, if_pos htarget, decide_eq_true_iff, Quantity.magnitude_eq_abs, abs_le]
  constructor <;> rintro ⟨hleast, hmost⟩ <;> constructor <;> linarith

/-- Shares that are all within an accuracy of the targets. -/
def Reached (accuracy : α) : List (Aim α) → List α → Prop :=
  List.Forall₂ fun x share => ∀ t ∈ x.target, isWithinAccuracy share t accuracy = true

instance (accuracy : α) (aims : List (Aim α)) (shares : List α) :
    Decidable (Reached accuracy aims shares) :=
  inferInstanceAs (Decidable (List.Forall₂ _ aims shares))

/-- Shares that are all within the tolerance of the targets. -/
def OnTarget : List (Aim α) → List α → Prop :=
  List.Forall₂ fun x share => ∀ t ∈ x.target, |share - t| ≤ recalibrationTolerance

/-- The shares after a number of passes. -/
def sharesAfter (aims : List (Aim α)) (k : ℕ) : List α :=
  (adjusted^[k] aims).map fun x => x.pull / aimedPull (adjusted^[k] aims)

/-- The least that the targets and the rest cover of the market before the last pass. -/
def leastCover (aims : List (Aim α)) : α :=
  goalTotal aims - goalTolerance aims + leastRest aims (maxRecalibrationPasses - 1)

/-- The most that the targets and the rest cover of the market before the last pass. -/
def mostCover (aims : List (Aim α)) : α :=
  goalTotal aims + goalTolerance aims + mostRest aims (maxRecalibrationPasses - 1)

section Passes

variable {aims : List (Aim α)} (hfinite : ∀ a : α, Quantity.isFinite a = true)

/-- What holds of each target and the share after passes. -/
theorem forall₂_sharesAfter_iff {p : Option α → α → Prop} {k : ℕ} :
    List.Forall₂ (fun x share => p x.target share) aims (sharesAfter aims k) ↔
      ∀ y ∈ adjusted^[k] aims, p y.target (y.pull / aimedPull (adjusted^[k] aims)) := by
  obtain ⟨f, hf, htarget⟩ := adjusted_iterate aims k
  rw [sharesAfter]
  generalize aimedPull (adjusted^[k] aims) = total
  rw [hf, List.map_map, List.forall₂_map_right_iff, List.forall₂_same, List.forall_mem_map]
  simp only [htarget, Function.comp_apply]

/-- Passes settle exactly if every share is on target after all of them. -/
theorem settles_iff_onTarget :
    Settles aims ↔ OnTarget aims (sharesAfter aims maxRecalibrationPasses) := by
  rw [settles_iff]
  exact (forall₂_sharesAfter_iff
    (p := fun target share => ∀ t ∈ target, |share - t| ≤ recalibrationTolerance)).symm

include hfinite

/-- Passes from shares in proportion to the logit weights adjust these as often as there are
passes. -/
theorem Partial.recalibrationPasses_eq_ok (h : Partial aims) (fuel : ℕ)
    {a : Allocation α} (ha : a.shares = aims.map fun x => x.pull / aimedPull aims) :
    ∃ b, (recalibrationPasses fuel aims a).outcome = .ok b ∧
      b.shares = sharesAfter aims fuel := by
  induction fuel generalizing aims a with
  | zero => exact ⟨a, rfl, ha⟩
  | succ fuel ih =>
    rw [sharesAfter, Function.iterate_succ_apply]
    rcases recalibrationPasses_succ ha fuel with ⟨hnone, hstill⟩ | hstep
    · -- A pass that adjusts nobody can be repeated, although the recalibration ends with it.
      have hfixed : adjusted aims = aims :=
        (List.map_congr_left fun x hx => Aim.adjust_of_none (hnone x hx)).trans (List.map_id' _)
      refine ⟨a, hstill ▸ rfl, ?_⟩
      rw [hfixed, Function.iterate_fixed hfixed]
      exact ha
    · obtain ⟨next, hallocated, hshares⟩ :=
        allocate_aims hfinite h.pass.ordinary h.pass.aimedPull_pos
      rw [hstep next hallocated]
      exact ih h.pass hshares

/-- A recalibration ends with the shares after all passes. -/
theorem Partial.recalibrate_eq_ok (h : Partial aims) :
    ∃ b, (recalibrate aims).outcome = .ok b ∧
      b.shares = sharesAfter aims maxRecalibrationPasses := by
  obtain ⟨a, hallocated, ha⟩ := allocate_aims hfinite h.ordinary h.aimedPull_pos
  obtain ⟨b, hb, hshares⟩ := h.recalibrationPasses_eq_ok hfinite maxRecalibrationPasses ha
  exact ⟨b, by rw [recalibrate, hallocated]; exact hb, hshares⟩

end Passes

namespace Partial

variable {aims : List (Aim α)}

theorem leastCover_pos (h : Partial aims) : 0 < leastCover aims :=
  add_pos_of_nonneg_of_pos h.least_nonneg (h.leastRest_pos _)

theorem mostCover_pos (h : Partial aims) : 0 < mostCover aims :=
  add_pos_of_nonneg_of_pos h.most_nonneg (h.mostRest_pos _)

/-- The shares after all passes are the targets out of what the targets and the rest cover before
the last one, up to the tolerance. -/
theorem sharesAfter_mem (h : Partial aims) :
    List.Forall₂ (fun x share => ∀ t ∈ x.target, 0 < t ∧
        (t - recalibrationTolerance) / mostCover aims ≤ share ∧
          share ≤ (t + recalibrationTolerance) / leastCover aims)
      aims (sharesAfter aims maxRecalibrationPasses) := by
  refine (forall₂_sharesAfter_iff (p := fun target share => ∀ t ∈ target, 0 < t ∧
    (t - recalibrationTolerance) / mostCover aims ≤ share ∧
      share ≤ (t + recalibrationTolerance) / leastCover aims)).2 ?_
  have hlast := h.iterate (maxRecalibrationPasses - 1)
  have htol : (0 : α) < recalibrationTolerance := recalibrationTolerance_pos
  obtain ⟨hleast, hmost⟩ := h.restShare_iterate_mem (maxRecalibrationPasses - 1)
  obtain ⟨htotal, htolerance⟩ := goals_iterate aims (maxRecalibrationPasses - 1)
  rw [show maxRecalibrationPasses = maxRecalibrationPasses - 1 + 1 from rfl,
    Function.iterate_succ_apply']
  refine List.forall_mem_map.2 fun x hx t htarget => ?_
  have ht : x.target = some t := (x.recalibrated_adjust _).target ▸ htarget
  have hcoarse := hlast.coarse x hx t ht
  obtain ⟨hlow, hhigh⟩ := hlast.share_adjusted_mem hx ht
  rw [htotal, htolerance] at hlow hhigh
  have hrest := hlast.restShare_pos
  refine ⟨hlast.goal_pos hx ht, le_trans ?_ hlow, hhigh.trans ?_⟩
  · exact div_le_div_of_nonneg_left (by linarith)
      (add_pos_of_nonneg_of_pos h.most_nonneg hrest) (by unfold mostCover; linarith)
  · exact div_le_div_of_nonneg_left (by linarith) h.leastCover_pos (by unfold leastCover; linarith)

section Few

variable {total first : α}

/-- What fifty passes leave of the distance for targets of half of the market. -/
theorem gap_le_of_half (htotal : 0 ≤ total) (hhalf : total ≤ 5001 / 10000)
    (hfirst : 1 / 1000 ≤ first) {k : ℕ} (hk : 50 ≤ k) :
    total ^ k * |1 - (1 - total) / first| ≤ recalibrationTolerance := by
  have hpos : 0 < first := lt_of_lt_of_le (by norm_num) hfirst
  have hpow : total ^ k ≤ 1 / 1000000000000000 :=
    calc total ^ k ≤ total ^ 50 := pow_le_pow_of_le_one htotal (by linarith) hk
      _ ≤ (5001 / 10000) ^ 50 := pow_le_pow_left₀ htotal hhalf _
      _ ≤ 1 / 1000000000000000 := by norm_num
  have hquotient : (1 - total) / first ≤ 1000 := by
    rw [div_le_iff₀ hpos]
    linarith
  have hquotient0 : 0 ≤ (1 - total) / first := div_nonneg (by linarith) hpos.le
  have hdistance : |1 - (1 - total) / first| ≤ 1000 := abs_le.2 ⟨by linarith, by linarith⟩
  calc total ^ k * |1 - (1 - total) / first|
      ≤ 1 / 1000000000000000 * 1000 :=
        mul_le_mul hpow hdistance (abs_nonneg _) (by norm_num)
    _ = recalibrationTolerance := by rw [recalibrationTolerance_eq]; norm_num

/-- What all passes but one leave of the distance for targets of nine tenths of the market. -/
theorem gap_le_of_nine_tenths (htotal : 0 ≤ total) (hmost : total ≤ 900001 / 1000000)
    (hfirst : 1 / 10 ≤ first) :
    total ^ (maxRecalibrationPasses - 1) * |1 - (1 - total) / first| ≤ 7 / 100000 := by
  have hpos : 0 < first := lt_of_lt_of_le (by norm_num) hfirst
  have hpow : total ^ 98 ≤ 33 / 1000000 :=
    (pow_le_pow_left₀ htotal hmost _).trans (by norm_num)
  have hquotient : (1 - total) / first ≤ 10 * (1 - total) := by
    rw [div_le_iff₀ hpos]
    have hscaled := mul_le_mul_of_nonneg_left hfirst (show 0 ≤ 10 * (1 - total) by linarith)
    linarith
  have hquotient0 : 0 ≤ (1 - total) / first := div_nonneg (by linarith) hpos.le
  have hstep : total * |1 - (1 - total) / first| ≤ 21 / 10 := by
    have hscaled := mul_le_mul_of_nonneg_left hquotient htotal
    have hscaled0 := mul_nonneg htotal hquotient0
    rw [← abs_of_nonneg htotal, ← abs_mul, abs_of_nonneg htotal, abs_le]
    constructor <;> nlinarith [sq_nonneg (20 * total - 9)]
  calc total ^ (maxRecalibrationPasses - 1) * |1 - (1 - total) / first|
      = total ^ 98 * (total * |1 - (1 - total) / first|) := by
        rw [maxRecalibrationPasses]; ring
    _ ≤ 33 / 1000000 * (21 / 10) :=
        mul_le_mul hpow hstep (mul_nonneg htotal (abs_nonneg _)) (by norm_num)
    _ ≤ 7 / 100000 := by norm_num

end Few

/-- Fifty passes leave little room if there are at most ten targets, of half of the market together,
and the others have a thousandth of it at first. -/
theorem narrow_of_few (h : Partial aims) (hcount : goalCount aims ≤ 10)
    (htotal : goalTotal aims ≤ 1 / 2) (hrest : 1 / 1000 ≤ restShare aims) : Narrow aims 50 := by
  have htolerance : goalTolerance aims ≤ 10 * recalibrationTolerance :=
    mul_le_mul_of_nonneg_right (by exact_mod_cast hcount) recalibrationTolerance_pos.le
  have hleast0 := h.least_nonneg
  have hmost0 := h.most_nonneg
  have htolerance0 := goalTolerance_nonneg aims
  have hfirst := h.restShare_pos
  have hleast : ∀ k, 50 ≤ k → 1 - (goalTotal aims + goalTolerance aims)
      ≤ leastRest aims k * (1 + recalibrationTolerance) := fun k hk => by
    refine (restAfter_near hmost0 hfirst (gap_le_of_half hmost0 ?_ hrest hk)).2
    rw [recalibrationTolerance_eq] at htolerance
    linarith
  have hmost : ∀ k, 50 ≤ k → mostRest aims k * (1 - recalibrationTolerance)
      ≤ 1 - (goalTotal aims - goalTolerance aims) := fun k hk =>
    (restAfter_near hleast0 hfirst (gap_le_of_half hleast0 (by linarith) hrest hk)).1
  have hroom : ∀ j k, 50 ≤ j → 50 ≤ k → mostRest aims j
      < (1 + (maxRecalibrationPasses - 50 : ℕ) * recalibrationTolerance) * leastRest aims k := by
    intro j k hj hk
    have hleast := hleast k hk
    have hmost := hmost j hj
    rw [recalibrationTolerance_eq] at hleast hmost htolerance ⊢
    norm_num [maxRecalibrationPasses] at hleast hmost htolerance ⊢
    linarith
  exact ⟨hroom _ _ (by decide) le_rfl, hroom _ _ le_rfl (by decide)⟩

/-- What the targets and the rest cover is near the market for up to a million targets of nine tenths
of it together, if the others have a tenth of it at first. -/
theorem cover_near_one (h : Partial aims) (hcount : goalCount aims ≤ 1000000)
    (htotal : goalTotal aims ≤ 9 / 10) (hrest : 1 / 10 ≤ restShare aims) :
    1 - 73 / 1000000 ≤ leastCover aims ∧ mostCover aims ≤ 1 + 73 / 1000000 := by
  have htolerance : goalTolerance aims ≤ 1000000 * recalibrationTolerance :=
    mul_le_mul_of_nonneg_right (by exact_mod_cast hcount) recalibrationTolerance_pos.le
  rw [recalibrationTolerance_eq] at htolerance
  have htolerance0 := goalTolerance_nonneg aims
  have hleast0 := h.least_nonneg
  have hleast := (restAfter_near h.most_nonneg h.restShare_pos
    (gap_le_of_nine_tenths h.most_nonneg (by linarith) hrest)).2
  have hmost := (restAfter_near hleast0 h.restShare_pos
    (gap_le_of_nine_tenths hleast0 (by linarith) hrest)).1
  change _ ≤ leastRest aims (maxRecalibrationPasses - 1) * _ at hleast
  change mostRest aims (maxRecalibrationPasses - 1) * _ ≤ _ at hmost
  unfold leastCover mostCover
  constructor <;> linarith

/-- The tolerance is a thousandth of a target at most. -/
theorem reached_of_onTarget (h : Partial aims) {shares : List α} (htarget : OnTarget aims shares) :
    Reached (1 / 1000) aims shares := by
  refine ((List.forall₂_and_left _ _).2 ⟨h.coarse, htarget⟩).imp
    fun x share hshare t ht => ?_
  obtain ⟨hcoarse, hnear⟩ := hshare
  have hcoarse := hcoarse t ht
  have htol : (0 : α) < recalibrationTolerance := recalibrationTolerance_pos
  obtain ⟨hleast, hmost⟩ := abs_le.1 (hnear t ht)
  rw [isWithinAccuracy_iff (by linarith)]
  constructor <;> linarith

/-- What the cover says about an accuracy. -/
theorem isWithinAccuracy_of_cover (h : Partial aims) {t share accuracy : α} (htpos : 0 < t)
    (hlow : (t - recalibrationTolerance) / mostCover aims ≤ share)
    (hhigh : share ≤ (t + recalibrationTolerance) / leastCover aims) :
    ((1 - accuracy) * t * mostCover aims ≤ t - recalibrationTolerance →
        t + recalibrationTolerance ≤ (1 + accuracy) * t * leastCover aims →
        isWithinAccuracy share t accuracy = true) ∧
      ((1 + accuracy) * t * mostCover aims < t - recalibrationTolerance ∨
          t + recalibrationTolerance < (1 - accuracy) * t * leastCover aims →
        isWithinAccuracy share t accuracy = false) := by
  have hleast := h.leastCover_pos
  have hmost := h.mostCover_pos
  constructor
  · intro hnear hnear'
    rw [isWithinAccuracy_iff htpos]
    exact ⟨((le_div_iff₀ hmost).2 hnear).trans hlow, hhigh.trans ((div_le_iff₀ hleast).2 hnear')⟩
  · intro hfar
    rw [← Bool.not_eq_true, isWithinAccuracy_iff htpos]
    rintro ⟨hleft, hright⟩
    rcases hfar with hbelow | habove
    · exact absurd (((lt_div_iff₀ hmost).2 hbelow).trans_le hlow) (not_lt.2 hright)
    · exact absurd (hhigh.trans_lt ((div_lt_iff₀ hleast).2 habove)) (not_lt.2 hleft)

/-- A cover near the market keeps targets of eleven hundred tolerances within a thousandth. -/
theorem isWithinAccuracy_of_coarse (h : Partial aims) (hcount : goalCount aims ≤ 1000000)
    (htotal : goalTotal aims ≤ 9 / 10) (hrest : 1 / 10 ≤ restShare aims) {t share : α}
    (hcoarse : 1100 * recalibrationTolerance ≤ t)
    (hlow : (t - recalibrationTolerance) / mostCover aims ≤ share)
    (hhigh : share ≤ (t + recalibrationTolerance) / leastCover aims) :
    isWithinAccuracy share t (1 / 1000) = true := by
  have htol : (0 : α) < recalibrationTolerance := recalibrationTolerance_pos
  have htpos : 0 < t := by linarith
  obtain ⟨hleast, hmost⟩ := h.cover_near_one hcount htotal hrest
  have hleast := mul_le_mul_of_nonneg_left hleast htpos.le
  have hmost := mul_le_mul_of_nonneg_left hmost htpos.le
  refine (h.isWithinAccuracy_of_cover htpos hlow hhigh).1 ?_ ?_ <;> linarith

end Partial

/-- Let some of a number of contenders have targets of a thousand tolerances or more, and let all of
them have positive weights and positive finite prices and no limits or fixed shares. A recalibration
succeeds. It ends with every share on target exactly if the passes settle, and then every share is
within a thousandth of its target. Passes settle if little room is left after one or more of them, in
particular for up to ten targets of half of the market together, if the others have a thousandth of
it at first. Whether they settle or not, every share is the target out of what the targets and the
rest cover before the last pass, up to the tolerance, which says within which accuracies a target is
reached and within which it is missed. In particular up to a million targets of eleven hundred
tolerances each and of nine tenths of the market together are reached within a thousandth of them if
the others have a tenth of the market at first. -/
theorem recalibrate_partial (hfinite : ∀ a : α, Quantity.isFinite a = true) {aims : List (Aim α)}
    (h : Partial aims) :
    ∃ b, (recalibrate aims).outcome = .ok b ∧
      (Settles aims ↔ OnTarget aims b.shares) ∧
      (Settles aims → Reached (1 / 1000) aims b.shares) ∧
      ((∃ k, 1 ≤ k ∧ k ≤ maxRecalibrationPasses ∧ Narrow aims k) → Settles aims) ∧
      (goalCount aims ≤ 10 → goalTotal aims ≤ 1 / 2 → 1 / 1000 ≤ restShare aims → Settles aims) ∧
      List.Forall₂ (fun x share => ∀ t ∈ x.target,
        (t - recalibrationTolerance) / mostCover aims ≤ share ∧
        share ≤ (t + recalibrationTolerance) / leastCover aims ∧
        ∀ accuracy,
          ((1 - accuracy) * t * mostCover aims ≤ t - recalibrationTolerance →
            t + recalibrationTolerance ≤ (1 + accuracy) * t * leastCover aims →
            isWithinAccuracy share t accuracy = true) ∧
          ((1 + accuracy) * t * mostCover aims < t - recalibrationTolerance ∨
            t + recalibrationTolerance < (1 - accuracy) * t * leastCover aims →
            isWithinAccuracy share t accuracy = false)) aims b.shares ∧
      (goalCount aims ≤ 1000000 → goalTotal aims ≤ 9 / 10 → 1 / 10 ≤ restShare aims →
        (∀ x ∈ aims, ∀ t ∈ x.target, 1100 * recalibrationTolerance ≤ t) →
        Reached (1 / 1000) aims b.shares) := by
  obtain ⟨b, hb, hshares⟩ := h.recalibrate_eq_ok hfinite
  have hsettles : Settles aims ↔ OnTarget aims b.shares := hshares ▸ settles_iff_onTarget
  have hmem := hshares ▸ h.sharesAfter_mem
  refine ⟨b, hb, hsettles, fun hsettled => h.reached_of_onTarget (hsettles.1 hsettled),
    fun ⟨k, hfirst, hlast, hnarrow⟩ => h.settles_of_narrow hfirst hlast hnarrow,
    fun hcount htotal hrest => h.settles_of_narrow (by decide) (by decide)
      (h.narrow_of_few hcount htotal hrest), ?_, ?_⟩
  · refine hmem.imp fun x share hshare t ht => ?_
    obtain ⟨htpos, hlow, hhigh⟩ := hshare t ht
    exact ⟨hlow, hhigh, fun accuracy => h.isWithinAccuracy_of_cover htpos hlow hhigh⟩
  · intro hcount htotal hrest hcoarse
    refine ((List.forall₂_and_left _ _).2 ⟨hcoarse, hmem⟩).imp fun x share hshare t ht => ?_
    obtain ⟨-, hlow, hhigh⟩ := hshare.2 t ht
    exact h.isWithinAccuracy_of_coarse hcount htotal hrest (hshare.1 t ht) hlow hhigh

/-- Plants with rational weights and prices, without limits and fixed shares. -/
theorem Partial.of_plants {aims : List (Aim ℚ)}
    (hplants : ∀ x ∈ aims, x.contender.capacityLimit = 1 ∧ x.contender.fixedShare = none ∧
      0 < x.contender.price ∧ 0 < x.contender.shareWeight)
    (hopen : ∃ x ∈ aims, x.target = none)
    (hcoarse : ∀ x ∈ aims, ∀ t ∈ x.target, 1000 * recalibrationTolerance ≤ t) : Partial aims := by
  refine ⟨fun x hx => ?_, fun x hx => (hplants x hx).2.2.2, hopen, hcoarse⟩
  obtain ⟨hlimit, hfixed, hprice, hweight⟩ := hplants x hx
  exact ⟨⟨hlimit, hfixed⟩, hprice, rfl, hweight.le⟩

/-- Three plants. One shall have four tenths of the market although it is dear, and one shall have
what a thousand tolerances are. -/
def dearAims : List (Aim ℚ) :=
  [⟨⟨1, 10, -2, 1, none⟩, some (2 / 5)⟩, ⟨⟨1, 5, -2, 1, none⟩, some (1 / 1000000000)⟩,
    ⟨⟨1, 5, -2, 1, none⟩, none⟩]

/-- Two plants that are alike, one of which shall have all of the market but a hundredth. -/
def slowAims : List (Aim ℚ) :=
  [⟨⟨1, 1, -1, 1, none⟩, some (99 / 100)⟩, ⟨⟨1, 1, -1, 1, none⟩, none⟩]

/-- Three plants. One shall have nearly nine tenths of the market, and one shall have what a thousand
tolerances are. -/
def driftingAims : List (Aim ℚ) :=
  [⟨⟨18, 1, -1, 1, none⟩, some (891 / 1000)⟩, ⟨⟨1, 1, -1, 1, none⟩, some (1 / 1000000000)⟩,
    ⟨⟨27, 1, -1, 1, none⟩, none⟩]

theorem partial_dearAims : Partial dearAims :=
  .of_plants (by decide +kernel) (by decide +kernel) (by decide +kernel)

theorem partial_slowAims : Partial slowAims :=
  .of_plants (by decide +kernel) (by decide +kernel) (by decide +kernel)

theorem partial_driftingAims : Partial driftingAims :=
  .of_plants (by decide +kernel) (by decide +kernel) (by decide +kernel)

/-- Both plants get their parts of the market. -/
theorem dearAims_reached :
    (∀ a : ℚ, Quantity.isFinite a = true) ∧ Partial dearAims ∧
      ∃ b, (recalibrate dearAims).outcome = .ok b ∧ Reached (1 / 1000) dearAims b.shares := by
  refine ⟨fun _ => rfl, partial_dearAims, ?_⟩
  obtain ⟨b, hb, -, hreached, -, hfew, -⟩ := recalibrate_partial (fun _ => rfl) partial_dearAims
  exact ⟨b, hb, hreached (hfew (by decide +kernel) (by decide +kernel) (by decide +kernel))⟩

/-- Targets that are missed because the passes are cut off. The first ones leave too little to the
others. The second ones leave them a tenth of the market, but the passes are still at the larger
target: they leave the smaller one alone within the tolerance, and the last of them moves it out. -/
theorem cutOff_missed :
    (Partial slowAims ∧ goalTotal slowAims < 1 ∧
      ∃ b, (recalibrate slowAims).outcome = .ok b ∧ ¬Reached (1 / 1000) slowAims b.shares) ∧
    (Partial driftingAims ∧ goalTotal driftingAims ≤ 9 / 10 ∧ 1 / 10 ≤ restShare driftingAims ∧
      ∃ b, (recalibrate driftingAims).outcome = .ok b ∧
        ¬Reached (1 / 1000) driftingAims b.shares) := by
  obtain ⟨b, hb, hshares⟩ := partial_slowAims.recalibrate_eq_ok fun _ => rfl
  obtain ⟨b', hb', hshares'⟩ := partial_driftingAims.recalibrate_eq_ok fun _ => rfl
  refine ⟨⟨partial_slowAims, by decide +kernel, b, hb, ?_⟩,
    partial_driftingAims, by decide +kernel, by decide +kernel, b', hb', ?_⟩
  · rw [hshares]
    decide +kernel
  · rw [hshares']
    decide +kernel

end NestedLogit
