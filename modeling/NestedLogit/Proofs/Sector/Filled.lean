import NestedLogit.Proofs.Choice.Filled
import NestedLogit.Proofs.Sector.Course

/-!
# Demands that fixed shares fill

Where the fixed shares of those who contend fill a demand, every subsector is awarded its fixed
share, and one that has none is awarded nothing. What becomes of a subsector then does not depend on
the others, apart from the checks that all of them have to pass.

## Main definitions

- `Sector.Filled` — fixed shares fill the demand
- `Sector.Admitted` — those who contend pass the checks
- `Sector.granted` — a subsector with what it is awarded then

## Main statements

- `Sector.calculate_succeeds_iff_of_filled` — when a calculation comes to its end
- `Sector.subsectors_calculate_of_filled` — and what becomes of the subsectors
-/

namespace NestedLogit.Sector

variable {n : Nat} {α : Type} {p : Fin n} [ExactQuantity α] {aims : List (Aim α)}

/-- Aims that can be allocated are those of contenders who can share the market as they are. -/
theorem exists_allocate_of_allocateAims {a : Allocation α}
    (h : (allocateAims aims).outcome = .ok a) :
    ∃ b, allocate (aims.map Aim.contender) = .ok b := by
  unfold allocateAims recalibrate at h
  cases hb : allocate (aims.map Aim.contender) with
  | ok b => exact ⟨b, rfl⟩
  | error e =>
    rw [hb] at h
    split at h <;> cases h

/-- Contenders are admitted to a market if each passes the checks and the fixed shares fit into
it. -/
def Admitted (cs : List (Contender α)) : Prop :=
  (∀ c ∈ cs, c.Admissible) ∧ fixedTotal cs ≤ 1 + Quantity.shareTolerance

/-- Aims at a market that fixed shares fill are settled, and everybody has their fixed share. -/
theorem allocateAims_filled (hadmitted : Admitted (aims.map Aim.contender))
    (hfull : 1 ≤ fixedTotal (aims.map Aim.contender)) :
    allocateAims aims = ⟨(aims.map Aim.settle).map Aim.contender,
      .ok ⟨fixedAwards (aims.map Aim.contender), none⟩⟩ := by
  obtain ⟨hc, hle⟩ := hadmitted
  unfold allocateAims
  split
  · exact recalibrate_filled (List.forall_mem_map.1 hc) hle hfull
  · next hnobody =>
    have hsame : aims.map Aim.settle = aims := by
      refine (List.map_congr_left fun x hx => Aim.adjust_of_none ?_).trans (List.map_id' _)
      have hnone : x.target = none := by
        by_contra hsome
        exact hnobody (List.any_eq_true.2 ⟨x, hx, Option.isSome_iff_ne_none.2 hsome⟩)
      rw [Aim.adjustment, hnone]
    rw [hsame, allocate_filled hc hle hfull]

variable {s : Sector n α} {demand : α} {prices : GoodTable α} {calibrate : Bool}

/-- The contenders for a demand. -/
def contenders (s : Sector n α) (p : Fin n) (demand : α) (prices : GoodTable α)
    (calibrate : Bool) : List (Contender α) :=
  (s.contending p demand prices calibrate).subsectors.map (contender p demand)

/-- The fixed shares of those who contend fill the demand. -/
def Filled (p : Fin n) (demand : α) (prices : GoodTable α) (calibrate : Bool)
    (s : Sector n α) : Prop :=
  1 ≤ fixedTotal (s.contenders p demand prices calibrate)

/-- A subsector with the award of its fixed share, and with the share weight that a recalibration
settles for. -/
def granted (p : Fin n) (demand : α) (calibrate : Bool) (x : Subsector n α) : Subsector n α :=
  let target := targetShare p demand calibrate x
  award p x ⟨(contender p demand x).fixedPart, false⟩
    (Aim.settle ⟨contender p demand x, target⟩).contender target

theorem share_granted (x : Subsector n α) :
    (granted p demand calibrate x).results[p].share = (contender p demand x).fixedPart := by
  simp [granted, award_eq_update, Subsector.update]

theorem contender_aims (s : Sector n α) (demand : α) (calibrate : Bool) :
    (s.aims p demand calibrate).map Aim.contender = s.subsectors.map (contender p demand) := by
  rw [aims, List.map_map]
  rfl

section Filled

variable (hfull : s.Filled p demand prices calibrate)

include hfull

/-- Everybody is awarded their fixed share. -/
theorem withAwards_of_filled (hadmitted : Admitted (s.contenders p demand prices calibrate)) :
    (s.contending p demand prices calibrate).withAwards p demand calibrate
        ⟨fixedAwards (s.contenders p demand prices calibrate), none⟩
      = (s.contending p demand prices calibrate).subsectors.map (granted p demand calibrate) := by
  unfold Filled at hfull
  rw [contenders, ← contender_aims _ demand calibrate] at hadmitted hfull ⊢
  rw [withAwards, decided, allocateAims_filled hadmitted hfull, awardEach]
  simp only [fixedAwards, aims, List.map_map, List.zip_map', List.zipWith_map_right,
    List.zipWith_self]
  rfl

/-- When the demand can be shared out. -/
theorem allocateAims_of_filled {a : Allocation α} :
    (allocateAims ((s.contending p demand prices calibrate).aims p demand calibrate)).outcome
        = .ok a ↔
      Admitted (s.contenders p demand prices calibrate) ∧
        a = ⟨fixedAwards (s.contenders p demand prices calibrate), none⟩ := by
  unfold Filled at hfull
  rw [contenders, ← contender_aims _ demand calibrate] at hfull ⊢
  constructor
  · intro h
    obtain ⟨b, hb⟩ := exists_allocate_of_allocateAims h
    have hne : ((s.contending p demand prices calibrate).aims p demand calibrate).map
        Aim.contender ≠ [] := by
      intro hnil
      rw [hnil] at hfull
      exact absurd hfull (not_le.2 zero_lt_one)
    have hadmitted := (allocate_eq_ok hne hb).1
    rw [allocateAims_filled hadmitted hfull] at h
    exact ⟨hadmitted, (Except.ok.inj h).symm⟩
  · rintro ⟨hadmitted, rfl⟩
    rw [allocateAims_filled hadmitted hfull]

/-- A calculation for a demand that fixed shares fill comes to its end if the subsectors can offer
prices, pass the checks, and can produce their fixed shares. -/
theorem calculate_succeeds_iff_of_filled :
    (s.calculate p demand prices calibrate).failure = none ↔
      (∀ x ∈ s.subsectors, (x.offer p prices).failure = none) ∧
        Admitted (s.contenders p demand prices calibrate) ∧
          ∀ y ∈ (s.contending p demand prices calibrate).subsectors,
            (serveShare p demand calibrate (granted p demand calibrate y)).failure = none := by
  rw [calculate_succeeds_iff]
  refine and_congr_right fun _ => ?_
  simp only [allocateAims_of_filled hfull]
  constructor
  · rintro ⟨a, ⟨hadmitted, rfl⟩, hserves⟩
    rw [withAwards_of_filled hfull hadmitted] at hserves
    exact ⟨hadmitted, List.forall_mem_map.1 hserves⟩
  · rintro ⟨hadmitted, hserves⟩
    refine ⟨_, ⟨hadmitted, rfl⟩, ?_⟩
    rw [withAwards_of_filled hfull hadmitted]
    exact List.forall_mem_map.2 hserves

theorem subsectors_calculate_of_filled
    (h : (s.calculate p demand prices calibrate).failure = none) :
    (s.calculate p demand prices calibrate).state.subsectors
      = (s.contending p demand prices calibrate).subsectors.map fun y =>
        (serveShare p demand calibrate (granted p demand calibrate y)).state := by
  obtain ⟨-, hadmitted, -⟩ := (calculate_succeeds_iff_of_filled hfull).1 h
  rw [subsectors_calculate h ((allocateAims_of_filled hfull).2 ⟨hadmitted, rfl⟩),
    withAwards_of_filled hfull hadmitted, List.map_map]
  rfl

/-- In the end everybody has their fixed share. -/
theorem shares_calculate_of_filled
    (h : (s.calculate p demand prices calibrate).failure = none) :
    ((s.calculate p demand prices calibrate).state.subsectors.map fun x => x.results[p].share)
      = (s.contenders p demand prices calibrate).map Contender.fixedPart := by
  obtain ⟨-, -, hserves⟩ := (calculate_succeeds_iff_of_filled hfull).1 h
  rw [subsectors_calculate_of_filled hfull h, contenders, List.map_map, List.map_map]
  refine List.map_congr_left fun y hy => ?_
  exact (Subsector.share_setOutput (hserves y hy)).trans (share_granted y)

end Filled

end NestedLogit.Sector
