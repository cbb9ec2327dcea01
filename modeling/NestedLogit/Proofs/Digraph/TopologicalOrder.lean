import Mathlib.Tactic.Basic
import NestedLogit.Digraph.TopologicalOrder
import NestedLogit.Proofs.Except

/-!
# Laws of the topological order

An order that comes out of the search leads every edge forward: no node occurs twice, none has an
edge to itself, and no edge leads back to an earlier node.

## Main definitions

- `Digraph.SearchInvariant` — what a search keeps of the nodes it has found and finished

## Main statements

- `Digraph.search_keeps`, `Digraph.searchAll_keeps` — the search
- `Digraph.pairwise_of_checkOrder` — the check
- `Digraph.forward_of_topologicalOrder` — both together
-/

namespace NestedLogit.Digraph

variable {n : Nat} {g : Digraph n}

/-- What holds of the found and the finished nodes all through a search: a node is finished once,
and only after it was found without an edge to itself. -/
structure SearchInvariant (g : Digraph n) (found finished : List (Fin n)) : Prop where
  nodup : finished.Nodup
  found_of_finished : ∀ i ∈ finished, i ∈ found
  loopless : ∀ i ∈ found, ¬g.Adjacent i i

theorem searchInvariant_nil : g.SearchInvariant [] [] :=
  ⟨.nil, by simp, by simp⟩

/-- Finishing a found node for the first time keeps the invariant. -/
theorem SearchInvariant.finish {found finished : List (Fin n)}
    (h : g.SearchInvariant found finished) {i : Fin n} (hi : i ∈ found) (hnew : i ∉ finished) :
    g.SearchInvariant found (i :: finished) := by
  refine ⟨List.nodup_cons.2 ⟨hnew, h.nodup⟩, ?_, h.loopless⟩
  rw [List.forall_mem_cons]
  exact ⟨hi, h.found_of_finished⟩

/-- Finding a node without an edge to itself keeps the invariant. -/
theorem SearchInvariant.find {found finished : List (Fin n)}
    (h : g.SearchInvariant found finished) {i : Fin n} (hi : i ∉ g.successors i) :
    g.SearchInvariant (i :: found) finished := by
  refine ⟨h.nodup, ?_, ?_⟩
  · intro j hj
    exact List.mem_cons_of_mem i (h.found_of_finished j hj)
  · rw [List.forall_mem_cons]
    refine ⟨?_, h.loopless⟩
    intro hadj
    exact hi (mem_successors.2 hadj)

/-- A search keeps the invariant from its first step to its last. -/
theorem search_keeps {found finished stack : List (Fin n)}
    (h : g.SearchInvariant found finished) {result : List (Fin n) × List (Fin n)}
    (hs : g.search found finished stack = .ok result) :
    g.SearchInvariant result.1 result.2 := by
  induction found, finished, stack using search.induct g with
  | case1 found finished =>
    rw [search] at hs
    cases hs
    exact h
  | case2 found finished i stack hi ih =>
    -- The node comes to the top again: it is finished now, unless it was before.
    rw [search, dif_pos hi] at hs
    refine ih ?_ hs
    split
    · exact h
    · next hnew => exact h.finish hi hnew
  | case3 found finished i stack hi hloop =>
    rw [search, dif_neg hi, if_pos hloop] at hs
    cases hs
  | case4 found finished i stack hi hloop fresh ih =>
    rw [search, dif_neg hi, if_neg hloop] at hs
    exact ih (h.find hloop) hs

theorem searchAll_keeps {nodes : List (Fin n)} {state result : List (Fin n) × List (Fin n)}
    (h : g.SearchInvariant state.1 state.2) (hs : g.searchAll nodes state = .ok result) :
    g.SearchInvariant result.1 result.2 := by
  induction nodes generalizing state with
  | nil =>
    cases hs
    exact h
  | cons i rest ih =>
    obtain ⟨found, finished⟩ := state
    rw [searchAll] at hs
    split at hs
    · exact ih h hs
    · obtain ⟨next, hnext, hs⟩ := bind_eq_ok.1 hs
      exact ih (search_keeps h hnext) hs

/-- The finish order names no node twice, and none with an edge to itself. -/
theorem loopless_of_finishOrder {order : List (Fin n)} (h : g.finishOrder = .ok order) :
    order.Nodup ∧ ∀ i ∈ order, ¬g.Adjacent i i := by
  obtain ⟨⟨found, finished⟩, hsearch, h⟩ := bind_eq_ok.1 h
  cases h
  have hkept := searchAll_keeps searchInvariant_nil hsearch
  refine ⟨hkept.nodup, ?_⟩
  intro i hi
  exact hkept.loopless i (hkept.found_of_finished i hi)

/-- An order that passes the check has no edge from a node back to an earlier one. -/
theorem pairwise_of_checkOrder {met order : List (Fin n)} (hnodup : order.Nodup)
    (hmet : ∀ i ∈ met, i ∉ order) (h : g.checkOrder met order = .ok ()) :
    order.Pairwise fun i j => ¬g.Adjacent j i := by
  induction order generalizing met with
  | nil => exact .nil
  | cons i rest ih =>
    rw [checkOrder] at h
    obtain ⟨hi, hnodup⟩ := List.nodup_cons.1 hnodup
    split at h
    · cases h
    · next hnone =>
      -- All predecessors were met, so that none of them can be still to come.
      have hnil := List.filter_eq_nil_iff.1 (List.getLast?_eq_none_iff.1 hnone)
      have hall : ∀ j ∈ g.predecessors i, j ∈ i :: met := by
        intro j hj
        by_cases hmet : j ∈ i :: met
        · exact hmet
        · exact absurd (decide_eq_true hmet) (hnil j hj)
      have hrest : ∀ j ∈ rest, ¬g.Adjacent j i := by
        intro j hj hadj
        rcases List.mem_cons.1 (hall j (mem_predecessors.2 hadj)) with rfl | hmem
        · exact hi hj
        · exact hmet j hmem (List.mem_cons_of_mem i hj)
      refine .cons hrest (ih hnodup ?_ h)
      rw [List.forall_mem_cons]
      refine ⟨hi, ?_⟩
      intro j hj hmem
      exact hmet j hj (List.mem_cons_of_mem i hmem)

/-- In a topological order every edge leads from an earlier node to a later one. -/
theorem forward_of_topologicalOrder {order : List (Fin n)} (h : g.topologicalOrder = .ok order) :
    order.Nodup ∧ (∀ i ∈ order, ¬g.Adjacent i i) ∧
      order.Pairwise fun i j => ¬g.Adjacent j i := by
  obtain ⟨found, hfinish, h⟩ := bind_eq_ok.1 h
  obtain ⟨⟨⟩, hcheck, h⟩ := bind_eq_ok.1 h
  cases h
  obtain ⟨hnodup, hloopless⟩ := loopless_of_finishOrder hfinish
  exact ⟨hnodup, hloopless, pairwise_of_checkOrder hnodup (by simp) hcheck⟩

end NestedLogit.Digraph
