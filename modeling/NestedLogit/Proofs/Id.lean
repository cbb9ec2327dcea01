import Mathlib.Data.List.Basic
import Mathlib.Tactic.Tauto
import NestedLogit.Id

/-!
# Names in order

Putting names in order and leaving out repetitions loses no name. A name is found in a set exactly
if it is there.
-/

namespace NestedLogit

section Repetitions

variable {β : Type} [DecidableEq β]

theorem mem_eraseRepsBy_loop (a b : β) (xs seen : List β) :
    b ∈ List.eraseRepsBy.loop (· == ·) a xs seen ↔ b = a ∨ b ∈ xs ∨ b ∈ seen := by
  induction xs generalizing a seen with
  | nil =>
    rw [List.eraseRepsBy.loop, List.mem_reverse, List.mem_cons]
    simp only [List.not_mem_nil, false_or]
  | cons x xs ih =>
    rw [List.eraseRepsBy.loop, List.mem_cons]
    by_cases h : a = x
    · subst h
      rw [beq_self_eq_true]
      rw [ih]
      tauto
    · rw [beq_false_of_ne h]
      rw [ih, List.mem_cons]
      tauto

/-- Nothing but repetitions is lost. -/
theorem mem_eraseReps {b : β} {xs : List β} : b ∈ xs.eraseReps ↔ b ∈ xs := by
  cases xs with
  | nil => rfl
  | cons x xs =>
    show b ∈ List.eraseRepsBy.loop (· == ·) x xs [] ↔ _
    rw [mem_eraseRepsBy_loop, List.mem_cons]
    simp only [List.not_mem_nil, or_false]

end Repetitions

namespace Id

variable {kind : IdKind} {ids : List (Id kind)} {id : Id kind} {name : String}

theorem mem_sorted : id ∈ sorted ids ↔ id ∈ ids := by
  rw [sorted, mem_eraseReps, List.mem_mergeSort]

theorem find_eq_ok : find ids name = .ok id ↔ id ∈ ids ∧ id.name = name := by
  unfold find
  cases hfound : ids.find? fun id => id.name = name with
  | none =>
    have habsent := List.find?_eq_none.1 hfound
    refine iff_of_false (fun h => by cases h) fun ⟨hmem, hname⟩ => ?_
    exact habsent id hmem (decide_eq_true hname)
  | some found =>
    have hname : found.name = name := by simpa using List.find?_some hfound
    have hmem := List.mem_of_find?_eq_some hfound
    constructor
    · intro h
      cases h
      exact ⟨hmem, hname⟩
    · rintro ⟨-, rfl⟩
      exact congrArg Except.ok (congrArg Id.mk hname)

end Id

end NestedLogit
