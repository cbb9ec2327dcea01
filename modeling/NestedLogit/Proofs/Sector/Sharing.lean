import NestedLogit.Proofs.Alike
import NestedLogit.Proofs.Choice.Awards
import NestedLogit.Sector

/-!
# How a sector shares out a demand

A sector fits its fixed supply to the demand, has its subsectors contend for shares, and gives each
of them what it is awarded. The step is taken apart here once; what it leaves alone, what it depends
on and what it gives out are all derived from that.

## Main definitions

- `Sector.fitted` — a sector whose fixed supply fits a demand
- `Sector.decided` — what an allocation decides for each subsector

## Main statements

- `Sector.shareSubsectors_of_error`, `Sector.shareSubsectors_of_ok` — how the step ends
- `Sector.shareSubsectors_eq_ok` — what it has done if it comes to its end
-/

namespace NestedLogit.Sector

variable {n : Nat} {α : Type} {p : Fin n}

/-- Everything that a subsector is awarded, taken up at once. -/
theorem award_eq_update (x : Subsector n α) (a : Award α) (c : Contender α) (target : Option α) :
    award p x a c target = x.update p fun r =>
      { r with
        share := a.share
        capacityLimited := a.capacityLimited
        shareWeight := c.shareWeight
        calibrated := target.isSome } := by
  simp only [award, Subsector.setShare, Subsector.setCapacityLimited, Subsector.setShareWeight,
    Subsector.setCalibrated, Subsector.update, Series.modify_modify]

/-- The subsectors with what was decided for each of them. -/
def awardEach (p : Fin n) (xs : List (Subsector n α))
    (ds : List (Award α × Contender α × Option α)) : List (Subsector n α) :=
  List.zipWith (fun x d => award p x d.1 d.2.1 d.2.2) xs ds

theorem framed_awardEach {xs : List (Subsector n α)}
    {ds : List (Award α × Contender α × Option α)} (h : ds.length = xs.length) :
    List.Forall₂ (Subsector.Framed p) xs (awardEach p xs ds) := by
  refine forall₂_zipWith_self (fun x d => ?_) (Nat.le_of_eq h.symm)
  rw [award_eq_update]
  exact x.framed_update _

/-- Each subsector takes up the share that it is awarded. -/
theorem shares_awardEach {xs : List (Subsector n α)}
    {ds : List (Award α × Contender α × Option α)} (h : ds.length = xs.length) :
    ((awardEach p xs ds).map fun x => x.results[p].share) = ds.map fun d => d.1.share := by
  refine map_zipWith_right (fun x d => ?_) h
  rw [award_eq_update]
  simp [Subsector.update]

variable [Quantity α]

/-- An allocation between aims is the allocation of the contenders as they end up, one for each
aim. -/
theorem allocateAims_allocates {aims : List (Aim α)} {a : Allocation α}
    (h : (allocateAims aims).outcome = .ok a) :
    allocate (allocateAims aims).contenders = .ok a ∧
      (allocateAims aims).contenders.length = aims.length := by
  unfold allocateAims at h ⊢
  split at h
  · next htargets =>
    rw [if_pos htargets]
    exact recalibrate_allocates h
  · next hnone =>
    rw [if_neg hnone]
    exact ⟨h, List.length_map _⟩

/-- What an allocation between aims decides: an award for each of them, together with its contender
as it ends up, and with its target. -/
def decided (aims : List (Aim α)) (a : Allocation α) : List (Award α × Contender α × Option α) :=
  a.awards.zip ((allocateAims aims).contenders.zip (aims.map Aim.target))

section Decision

variable {aims : List (Aim α)} {a : Allocation α}

theorem length_awards_eq (h : (allocateAims aims).outcome = .ok a) :
    a.awards.length = aims.length := by
  obtain ⟨hallocate, hlen⟩ := allocateAims_allocates h
  rw [allocate_length hallocate, hlen]

theorem length_decided (h : (allocateAims aims).outcome = .ok a) :
    (decided aims a).length = aims.length := by
  rw [decided, List.length_zip, List.length_zip, List.length_map, length_awards_eq h,
    (allocateAims_allocates h).2, Nat.min_self, Nat.min_self]

theorem shares_decided (h : (allocateAims aims).outcome = .ok a) :
    ((decided aims a).map fun d => d.1.share) = a.shares := by
  have hlen : a.awards.length ≤
      ((allocateAims aims).contenders.zip (aims.map Aim.target)).length := by
    refine Nat.le_of_eq ?_
    rw [List.length_zip, List.length_map, length_awards_eq h, (allocateAims_allocates h).2,
      Nat.min_self]
  rw [Allocation.shares, ← List.map_fst_zip hlen, List.map_map]
  rfl

end Decision

/-- The sector whose subsectors contend for a demand: its fixed supply is scaled to fit, if there is
any demand. -/
def fitted (s : Sector n α) (p : Fin n) (demand : α) (calibrate : Bool) :
    Sector n α × List (Event α) :=
  if 0 < demand then s.scaleFixedSupplies p demand calibrate else (s, [])

/-- Whatever scaling the fixed supply of a subsector does, fitting it to a demand does no more. -/
theorem forall₂_fitted {R : Subsector n α → Subsector n α → Prop} (hself : ∀ x, R x x)
    (hscale : ∀ x factor, R x (x.scaleFixedSupply p factor)) (s : Sector n α) (demand : α)
    (calibrate : Bool) :
    List.Forall₂ R s.subsectors (s.fitted p demand calibrate).1.subsectors := by
  have hsame : List.Forall₂ R s.subsectors s.subsectors := List.forall₂_same.2 fun x _ => hself x
  unfold fitted scaleFixedSupplies
  split
  · split
    · refine forall₂_map_self (fun x => ?_) _
      split
      · exact hscale x _
      · exact hself x
    · exact hsame
  · exact hsame

theorem framed_fitted (s : Sector n α) (demand : α) (calibrate : Bool) :
    s.Framed p (s.fitted p demand calibrate).1 := by
  unfold fitted scaleFixedSupplies
  split
  · split
    · refine s.framed_mapSubsectors fun x => ?_
      split
      · exact x.framed_update _
      · exact .refl x
    · exact .refl s
  · exact .refl s

theorem results_fitted (s : Sector n α) (demand : α) (calibrate : Bool) :
    (s.fitted p demand calibrate).1.results = s.results := by
  unfold fitted scaleFixedSupplies
  split
  · split <;> rfl
  · rfl

/-- What the subsectors aim at when they contend for a demand. -/
def aims (s : Sector n α) (p : Fin n) (demand : α) (calibrate : Bool) : List (Aim α) :=
  s.subsectors.map fun x => ⟨contender p demand x, targetShare p demand calibrate x⟩

@[simp] theorem length_aims (s : Sector n α) (demand : α) (calibrate : Bool) :
    (s.aims p demand calibrate).length = s.subsectors.length :=
  List.length_map _

section Sharing

variable {s fit : Sector n α} {demand : α} {calibrate : Bool} {log : List (Event α)}

/-- If the aims cannot be allocated, the sector stays as it was fitted. -/
theorem shareSubsectors_of_error (hfit : s.fitted p demand calibrate = (fit, log))
    {e : AllocationError α}
    (h : (allocateAims (fit.aims p demand calibrate)).outcome = .error e) :
    s.shareSubsectors p demand calibrate =
      ⟨fit, log, some (.within (.sharingSubsectors fit.path) (.allocation e))⟩ := by
  unfold fitted at hfit
  unfold shareSubsectors
  rw [hfit]
  dsimp only
  split
  · next e' he => rw [Except.error.inj (h.symm.trans he)]
  · next a ha => cases h.symm.trans ha

/-- If they can, each subsector is given what was decided for it. -/
theorem shareSubsectors_of_ok (hfit : s.fitted p demand calibrate = (fit, log))
    {a : Allocation α} (h : (allocateAims (fit.aims p demand calibrate)).outcome = .ok a) :
    s.shareSubsectors p demand calibrate =
      ⟨{ fit with
          subsectors := awardEach p fit.subsectors (decided (fit.aims p demand calibrate) a) },
        log ++ a.fallback.toList.map (.fallbackUsed (.subsectors fit.path) p ·), none⟩ := by
  unfold fitted at hfit
  unfold shareSubsectors
  rw [hfit]
  dsimp only
  split
  · next e he => cases h.symm.trans he
  · next a' ha =>
    rw [← Except.ok.inj (h.symm.trans ha)]
    rfl

/-- A step that comes to its end has given each subsector what was decided for it. -/
theorem shareSubsectors_eq_ok (hfit : s.fitted p demand calibrate = (fit, log))
    (h : (s.shareSubsectors p demand calibrate).failure = none) :
    ∃ a, (allocateAims (fit.aims p demand calibrate)).outcome = .ok a ∧
      s.shareSubsectors p demand calibrate =
        ⟨{ fit with
            subsectors := awardEach p fit.subsectors (decided (fit.aims p demand calibrate) a) },
          log ++ a.fallback.toList.map (.fallbackUsed (.subsectors fit.path) p ·), none⟩ := by
  cases ho : (allocateAims (fit.aims p demand calibrate)).outcome with
  | error e =>
    rw [shareSubsectors_of_error hfit ho] at h
    cases h
  | ok a => exact ⟨a, rfl, shareSubsectors_of_ok hfit ho⟩

end Sharing

end NestedLogit.Sector
