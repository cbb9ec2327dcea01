import Mathlib.Data.List.Forall2
import Mathlib.Tactic.Basic
import NestedLogit.Proofs.Run
import NestedLogit.World

/-!
# What a calculation of the world does to each region

A calculation goes through the regions that it is for, in order, up to the first that stops. A
region is calculated if it is among them and those before it come to their ends, and is left as it
is otherwise. Nothing is assumed of the names of regions here.

## Main definitions

- `World.reaches` — whether a calculation gets to the region at a position

## Main statements

- `World.regions_calculate_eq` — the regions that a calculation leaves, however it ends
- `World.failure_calculate_eq_none` — when a calculation comes to its end
-/

namespace NestedLogit

namespace World

variable {n : Nat} {α : Type} {p : Fin n}

theorem inPeriod_val (w : World n α) (p : Fin n) (step : Fin n → Run α (World n α)) :
    w.inPeriod p step = step p := by
  rw [inPeriod, w.calendar.checkPeriod_val p]

/-- A step for a period that the calendar does not have is not made. -/
theorem state_inPeriod_of_none {w : World n α} {period : Nat} (h : w.calendar.period? period = none)
    (step : Fin n → Run α (World n α)) : (w.inPeriod period step).state = w := by
  unfold inPeriod Calendar.checkPeriod
  rw [h]
  rfl

variable [Quantity α] {calibrate : Bool} {positions : List Nat}

section Positions

/-- The calculation of a region in a calculation at some positions. -/
def calculateOne (p : Fin n) (calibrate chosen : Bool) (r : Region n α) : Run α (Region n α) :=
  if chosen then (r.calculate p calibrate).within (.calculatingRegion r.id) else .ok r

theorem failure_calculateOne {chosen : Bool} {r : Region n α} :
    (calculateOne p calibrate chosen r).failure = none ↔
      (chosen = true → (r.calculate p calibrate).failure = none) := by
  cases chosen with
  | true => exact (Run.failure_within _ _).trans (imp_iff_right rfl).symm
  | false => exact iff_of_true rfl nofun

theorem state_calculateOne (chosen : Bool) (r : Region n α) :
    (calculateOne p calibrate chosen r).state =
      if chosen then (r.calculate p calibrate).state else r := by
  cases chosen <;> rfl

variable {i : Nat} {r : Region n α}

theorem calculateAt_cons (rest : List (Region n α)) :
    calculateAt p calibrate positions i (r :: rest) =
      match (calculateOne p calibrate (i ∈ positions) r).failure with
      | some e =>
        ⟨(calculateOne p calibrate (i ∈ positions) r).state :: rest,
          (calculateOne p calibrate (i ∈ positions) r).log, some e⟩
      | none =>
        let run := calculateAt p calibrate positions (i + 1) rest
        ⟨(calculateOne p calibrate (i ∈ positions) r).state :: run.state,
          (calculateOne p calibrate (i ∈ positions) r).log ++ run.log, run.failure⟩ := by
  unfold calculateOne
  simp only [decide_eq_true_eq]
  rfl

theorem calculateAt_cons_of_none
    (h : (calculateOne p calibrate (i ∈ positions) r).failure = none) (rest : List (Region n α)) :
    calculateAt p calibrate positions i (r :: rest) =
      let run := calculateAt p calibrate positions (i + 1) rest
      ⟨(calculateOne p calibrate (i ∈ positions) r).state :: run.state,
        (calculateOne p calibrate (i ∈ positions) r).log ++ run.log, run.failure⟩ := by
  rw [calculateAt_cons, h]

theorem calculateAt_cons_of_some {e : CalculationError α}
    (h : (calculateOne p calibrate (i ∈ positions) r).failure = some e)
    (rest : List (Region n α)) :
    calculateAt p calibrate positions i (r :: rest) =
      ⟨(calculateOne p calibrate (i ∈ positions) r).state :: rest,
        (calculateOne p calibrate (i ∈ positions) r).log, some e⟩ := by
  rw [calculateAt_cons, h]

/-- A calculation at some positions comes to its end if those of all regions there do. -/
theorem failure_calculateAt (i : Nat) (regions : List (Region n α)) :
    (calculateAt p calibrate positions i regions).failure = none ↔
      ∀ (j : Nat) (hj : j < regions.length), i + j ∈ positions →
        (regions[j].calculate p calibrate).failure = none := by
  induction regions generalizing i with
  | nil => exact iff_of_true rfl fun j hj => absurd hj (Nat.not_lt_zero j)
  | cons r rest ih =>
    cases hr : (calculateOne p calibrate (i ∈ positions) r).failure with
    | none =>
      rw [calculateAt_cons_of_none hr, ih]
      constructor
      · intro h j hj hmem
        cases j with
        | zero => exact failure_calculateOne.1 hr (decide_eq_true hmem)
        | succ j =>
          exact h j (Nat.lt_of_succ_lt_succ hj) (by rwa [Nat.succ_add_eq_add_succ])
      · intro h j hj hmem
        exact h (j + 1) (Nat.succ_lt_succ hj) (by rwa [Nat.succ_add_eq_add_succ] at hmem)
    | some e =>
      rw [calculateAt_cons_of_some hr]
      refine iff_of_false nofun fun h => ?_
      have hone := failure_calculateOne.2 fun hmem =>
        h 0 (Nat.zero_lt_succ _) (of_decide_eq_true hmem)
      cases hr.symm.trans hone

/-- Whether a calculation at some positions gets to the one at `j`: it is one of them, and the
regions before it come to their ends. -/
def getsTo (p : Fin n) (calibrate : Bool) (positions : List Nat) (i : Nat)
    (regions : List (Region n α)) (j : Nat) : Bool :=
  i + j ∈ positions && (calculateAt p calibrate positions i (regions.take j)).succeeded

theorem getsTo_zero (regions : List (Region n α)) :
    getsTo p calibrate positions i regions 0 = decide (i ∈ positions) := by
  simp [getsTo, calculateAt, Run.succeeded, Run.ok]

/-- A region that comes to its end does not stop the calculation of those behind it. -/
theorem getsTo_succ_of_none (h : (calculateOne p calibrate (i ∈ positions) r).failure = none)
    (rest : List (Region n α)) (j : Nat) :
    getsTo p calibrate positions i (r :: rest) (j + 1)
      = getsTo p calibrate positions (i + 1) rest j := by
  rw [getsTo, getsTo, List.take_succ_cons, calculateAt_cons_of_none h, Nat.succ_add_eq_add_succ]
  rfl

theorem getsTo_succ_of_some {e : CalculationError α}
    (h : (calculateOne p calibrate (i ∈ positions) r).failure = some e)
    (rest : List (Region n α)) (j : Nat) :
    getsTo p calibrate positions i (r :: rest) (j + 1) = false := by
  rw [getsTo, List.take_succ_cons, calculateAt_cons_of_some h]
  exact Bool.and_false _

/-- Regions that the calculation does not get to are left as they are. -/
theorem state_calculateAt (i : Nat) (regions : List (Region n α)) :
    (calculateAt p calibrate positions i regions).state =
      regions.mapIdx fun j r =>
        if getsTo p calibrate positions i regions j then (r.calculate p calibrate).state
        else r := by
  induction regions generalizing i with
  | nil => rfl
  | cons r rest ih =>
    rw [List.mapIdx_cons, getsTo_zero, ← state_calculateOne]
    cases hr : (calculateOne p calibrate (i ∈ positions) r).failure with
    | none =>
      rw [calculateAt_cons_of_none hr]
      simp only [getsTo_succ_of_none hr, ih]
    | some e =>
      rw [calculateAt_cons_of_some hr]
      simp only [getsTo_succ_of_some hr, Bool.false_eq_true, if_false]
      congr 1
      exact (List.mapIdx_eq_iff.2 fun j => by simp).symm

end Positions

/-- Whether a calculation of a period gets to the region at a position: it is for that region, and
the regions before it that it is for come to their ends. -/
def reaches (w : World n α) (p : Fin n) (ids : List RegionId) (j : Nat) : Bool :=
  getsTo p w.calibrate (w.selection ids) 0 w.regions j

/-- The regions that a calculation leaves, however it ends. -/
theorem regions_calculate_eq (w : World n α) (p : Fin n) (ids : List RegionId) :
    (w.calculate p ids).state.regions =
      w.regions.mapIdx fun j r =>
        if w.reaches p ids j then (r.calculate p w.calibrate).state else r := by
  unfold calculate
  rw [inPeriod_val]
  exact state_calculateAt 0 w.regions

theorem failure_calculate_eq_none (w : World n α) (p : Fin n) (ids : List RegionId) :
    (w.calculate p ids).failure = none ↔
      ∀ (j : Nat) (hj : j < w.regions.length), j ∈ w.selection ids →
        (w.regions[j].calculate p w.calibrate).failure = none := by
  unfold calculate
  rw [inPeriod_val]
  refine (failure_calculateAt 0 w.regions).trans ?_
  simp only [Nat.zero_add]
  rfl

end World

end NestedLogit
