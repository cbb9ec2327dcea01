import Mathlib.Logic.Relation
import Mathlib.Order.Fin.Basic
import NestedLogit.Proofs.Digraph.TopologicalOrder

/-!
# Cycles and the topological order

The search with a stack is a depth-first search: it searches from the successors of a node that it
finds, finishes the node, and goes on. A node is finished after all nodes that its edges lead to,
except for those that are still open and therefore lead back to it. So an order passes the check
unless the graph has a cycle, and what is reported otherwise lies on one.

## Main definitions

- `Digraph.Explores` — what a search adds to the found and the finished nodes
- `Digraph.Settled` — finished nodes whose edges lead to earlier ones or close a cycle
- `Digraph.DepthFirst` — what holds where a search sets out

## Main statements

- `Digraph.search_settled` — a search keeps finished nodes settled
- `Digraph.cyclic_of_topologicalOrder` — a reported node lies on a cycle
- `Digraph.perm_of_topologicalOrder`, `Digraph.acyclic_of_topologicalOrder` — an order has all
  nodes, and there is none if the graph has a cycle
-/

namespace NestedLogit.Digraph

open Relation

variable {n : Nat} {g : Digraph n}

theorem missing_le_of_subset {found found' : List (Fin n)} (h : found ⊆ found') :
    missing found' ≤ missing found := by
  apply List.countP_mono_left
  intro i _ hi
  rw [decide_eq_true_eq] at hi ⊢
  exact fun hmem => hi (h hmem)

theorem mem_finish {finished : List (Fin n)} {i j : Fin n} :
    (j ∈ if i ∈ finished then finished else i :: finished) ↔ j = i ∨ j ∈ finished := by
  split
  · next hi => exact ⟨.inr, fun h => h.elim (fun hj => hj ▸ hi) id⟩
  · exact List.mem_cons

/-- A search from one stack on top of another is two searches, one after the other. -/
theorem search_append (found finished stack below : List (Fin n)) :
    g.search found finished (stack ++ below) =
      g.search found finished stack >>= fun s => g.search s.1 s.2 below := by
  induction found, finished, stack using search.induct g with
  | case1 found finished =>
    rw [List.nil_append, search.eq_1]
    rfl
  | case2 found finished i stack hi ih =>
    rw [List.cons_append, search, dif_pos hi, search.eq_2, dif_pos hi]
    exact ih
  | case3 found finished i stack hi hloop =>
    rw [List.cons_append, search, dif_neg hi, if_pos hloop, search.eq_2, dif_neg hi, if_pos hloop]
    rfl
  | case4 found finished i stack hi hloop fresh ih =>
    rw [List.append_assoc, List.cons_append] at ih
    rw [List.cons_append, search, dif_neg hi, if_neg hloop, ih, search.eq_2, dif_neg hi,
      if_neg hloop]

/-- What a search adds when it comes to its end: everything that it starts from or finds is
finished. -/
structure Explores (found finished stack : List (Fin n)) (result : List (Fin n) × List (Fin n)) :
    Prop where
  found_subset : found ⊆ result.1
  finished_subset : finished ⊆ result.2
  stack_subset : stack ⊆ result.2
  finished_of_new : ∀ i ∈ result.1, i ∉ found → i ∈ result.2

theorem search_explores {found finished stack : List (Fin n)}
    {result : List (Fin n) × List (Fin n)} (h : g.search found finished stack = .ok result) :
    Explores found finished stack result := by
  induction found, finished, stack using search.induct g with
  | case1 found finished =>
    rw [search] at h
    cases h
    refine ⟨List.Subset.refl _, List.Subset.refl _, List.nil_subset _, ?_⟩
    intro i hi hnew
    exact absurd hi hnew
  | case2 found finished i stack hi ih =>
    rw [search, dif_pos hi] at h
    have hrest := ih h
    refine ⟨hrest.found_subset, ?_, List.cons_subset.2 ⟨?_, hrest.stack_subset⟩,
      hrest.finished_of_new⟩
    · intro j hj
      exact hrest.finished_subset (mem_finish.2 (.inr hj))
    · exact hrest.finished_subset (mem_finish.2 (.inl rfl))
  | case3 found finished i stack hi hloop =>
    rw [search, dif_neg hi, if_pos hloop] at h
    cases h
  | case4 found finished i stack hi hloop fresh ih =>
    rw [search, dif_neg hi, if_neg hloop] at h
    have hrest := ih h
    have hstack : i :: stack ⊆ result.2 :=
      List.Subset.trans (List.subset_append_right _ _) hrest.stack_subset
    have hfound : found ⊆ result.1 :=
      List.Subset.trans (List.subset_cons_self _ _) hrest.found_subset
    refine ⟨hfound, hrest.finished_subset, hstack, ?_⟩
    intro j hj hnew
    by_cases hji : j = i
    · rw [hji]
      exact hstack List.mem_cons_self
    · apply hrest.finished_of_new j hj
      rw [List.mem_cons, not_or]
      exact ⟨hji, hnew⟩

/-- The search from a new node is a search from its new successors, after which the node is
finished. -/
theorem search_of_new {found finished stack : List (Fin n)} {i : Fin n} (hi : i ∉ found)
    (hloop : i ∉ g.successors i) :
    g.search found finished (i :: stack) =
      g.search (i :: found) finished
          ((g.successors i).filter fun j => j ∉ i :: found).reverse >>= fun s =>
        g.search s.1 (if i ∈ s.2 then s.2 else i :: s.2) stack := by
  rw [search, dif_neg hi, if_neg hloop]
  show g.search _ _ (((g.successors i).filter fun j => j ∉ i :: found).reverse ++ i :: stack) = _
  rw [search_append]
  cases h : g.search (i :: found) finished
      ((g.successors i).filter fun j => j ∉ i :: found).reverse with
  | error e => rfl
  | ok s =>
    -- The node was found before its successors, so that it is finished when it is met again.
    have hfound : i ∈ s.1 := (search_explores h).found_subset List.mem_cons_self
    show g.search s.1 s.2 (i :: stack) = _
    rw [search, dif_pos hfound]
    rfl

/-- Nodes in the order in which they are finished, the newest first: the edges of a node lead to
nodes that were finished before it, or close a cycle. -/
def Settled (g : Digraph n) : List (Fin n) → Prop
  | [] => True
  | i :: rest => (∀ j, g.Adjacent i j → j ∈ rest ∨ TransGen g.Adjacent j i) ∧ g.Settled rest

theorem Settled.of_mem {nodes : List (Fin n)} (h : g.Settled nodes) {i : Fin n} (hi : i ∈ nodes)
    {j : Fin n} (hij : g.Adjacent i j) : j ∈ nodes ∨ TransGen g.Adjacent j i := by
  induction nodes with
  | nil => cases hi
  | cons k rest ih =>
    rcases List.mem_cons.1 hi with rfl | hi
    · exact (h.1 j hij).imp_left (List.mem_cons_of_mem i)
    · exact (ih h.2 hi).imp_left (List.mem_cons_of_mem k)

theorem Settled.finish {nodes : List (Fin n)} (h : g.Settled nodes) {i : Fin n}
    (hi : ∀ j, g.Adjacent i j → j ∈ nodes ∨ TransGen g.Adjacent j i) :
    g.Settled (if i ∈ nodes then nodes else i :: nodes) := by
  split
  · exact h
  · exact ⟨hi, h⟩

/-- What holds where a search sets out: the finished nodes are settled, and the open ones, which
were found but not finished, lead to all nodes on the stack and are not among them. -/
structure DepthFirst (g : Digraph n) (found finished stack : List (Fin n)) : Prop where
  settled : g.Settled finished
  leads : ∀ i ∈ found, i ∉ finished → ∀ j ∈ stack, TransGen g.Adjacent i j
  closed : ∀ j ∈ stack, j ∈ found → j ∈ finished

namespace DepthFirst

variable {found finished rest : List (Fin n)} {i : Fin n}

theorem tail (h : g.DepthFirst found finished (i :: rest)) : g.DepthFirst found finished rest := by
  refine ⟨h.settled, ?_, ?_⟩
  · intro k hk hnot j hj
    exact h.leads k hk hnot j (List.mem_cons_of_mem i hj)
  · intro j hj
    exact h.closed j (List.mem_cons_of_mem i hj)

/-- The open nodes lead to a new node, and through it to its successors. -/
theorem descend (h : g.DepthFirst found finished (i :: rest)) :
    g.DepthFirst (i :: found) finished
      ((g.successors i).filter fun j => j ∉ i :: found).reverse := by
  refine ⟨h.settled, ?_, ?_⟩
  · intro k hk hnot j hj
    have hij : g.Adjacent i j := by
      rw [List.mem_reverse, List.mem_filter] at hj
      exact mem_successors.1 hj.1
    rcases List.mem_cons.1 hk with rfl | hk
    · exact .single hij
    · exact (h.leads k hk hnot i List.mem_cons_self).tail hij
  · intro j hj hfound
    rw [List.mem_reverse, List.mem_filter, decide_eq_true_eq] at hj
    exact absurd hfound hj.2

/-- When its successors have been searched, a node can be finished. -/
theorem finish (h : g.DepthFirst found finished (i :: rest))
    {mid : List (Fin n) × List (Fin n)} (hmid : g.Settled mid.2)
    (he : Explores (i :: found) finished
      ((g.successors i).filter fun j => j ∉ i :: found).reverse mid) :
    g.DepthFirst mid.1 (if i ∈ mid.2 then mid.2 else i :: mid.2) rest := by
  have hnew : ∀ k ∈ mid.1, k ∉ found → k = i ∨ k ∈ mid.2 := by
    intro k hk hnot
    by_cases hki : k = i
    · exact .inl hki
    · right
      apply he.finished_of_new k hk
      rw [List.mem_cons, not_or]
      exact ⟨hki, hnot⟩
  refine ⟨hmid.finish ?_, ?_, ?_⟩
  · intro j hij
    by_cases hj : j ∈ i :: found
    · -- A successor that was found before is finished, or still open and leads back here.
      rcases List.mem_cons.1 hj with rfl | hj
      · exact .inr (.single hij)
      · by_cases hfinished : j ∈ finished
        · exact .inl (he.finished_subset hfinished)
        · exact .inr (h.leads j hj hfinished i List.mem_cons_self)
    · left
      apply he.stack_subset
      rw [List.mem_reverse, List.mem_filter, decide_eq_true_eq]
      exact ⟨mem_successors.2 hij, hj⟩
  · intro k hk hnot
    rw [mem_finish] at hnot
    by_cases hfound : k ∈ found
    · exact h.tail.leads k hfound fun hdone => hnot (.inr (he.finished_subset hdone))
    · exact absurd (hnew k hk hfound) hnot
  · intro j hj hfound
    rw [mem_finish]
    by_cases hbefore : j ∈ found
    · exact .inr (he.finished_subset (h.tail.closed j hj hbefore))
    · exact hnew j hfound hbefore

end DepthFirst

/-- A search keeps the finished nodes settled. -/
theorem search_settled (found finished stack : List (Fin n))
    (hd : g.DepthFirst found finished stack) {result : List (Fin n) × List (Fin n)}
    (h : g.search found finished stack = .ok result) : g.Settled result.2 := by
  match stack with
  | [] =>
    rw [search] at h
    cases h
    exact hd.settled
  | i :: rest =>
    by_cases hi : i ∈ found
    · rw [search, dif_pos hi, if_pos (hd.closed i List.mem_cons_self hi)] at h
      exact search_settled found finished rest hd.tail h
    · by_cases hloop : i ∈ g.successors i
      · rw [search, dif_neg hi, if_pos hloop] at h
        cases h
      · -- The search from the successors comes first, with one node less to be found.
        rw [search_of_new hi hloop] at h
        obtain ⟨mid, hmid, h⟩ := bind_eq_ok.1 h
        have he := search_explores hmid
        have hfewer : missing (i :: found) < missing found := missing_cons_lt hi
        have hfewer' : missing mid.1 < missing found :=
          Nat.lt_of_le_of_lt (missing_le_of_subset he.found_subset) hfewer
        have hsettled := search_settled (i :: found) finished _ hd.descend hmid
        exact search_settled mid.1 _ rest (hd.finish hsettled he) h
  termination_by (missing found, stack.length)
  decreasing_by
    · exact Prod.Lex.right _ (Nat.lt_succ_self _)
    · exact Prod.Lex.left _ _ hfewer
    · exact Prod.Lex.left _ _ hfewer'

/-- Searches from nodes in turn finish all of them and leave no node open. -/
theorem searchAll_settled {nodes : List (Fin n)} {state result : List (Fin n) × List (Fin n)}
    (h : g.searchAll nodes state = .ok result) (hclosed : state.1 ⊆ state.2)
    (hsettled : g.Settled state.2) :
    g.Settled result.2 ∧ state.2 ⊆ result.2 ∧ nodes ⊆ result.2 := by
  induction nodes generalizing state with
  | nil =>
    cases h
    exact ⟨hsettled, List.Subset.refl _, List.nil_subset _⟩
  | cons i rest ih =>
    obtain ⟨found, finished⟩ := state
    rw [searchAll] at h
    split at h
    · next hi =>
      obtain ⟨hresult, hkept, hrest⟩ := ih h hclosed hsettled
      exact ⟨hresult, hkept, List.cons_subset.2 ⟨hkept (hclosed hi), hrest⟩⟩
    · next hi =>
      obtain ⟨next, hnext, h⟩ := bind_eq_ok.1 h
      have hexplored := search_explores hnext
      have hnextClosed : next.1 ⊆ next.2 := by
        intro k hk
        by_cases hfound : k ∈ found
        · exact hexplored.finished_subset (hclosed hfound)
        · exact hexplored.finished_of_new k hk hfound
      -- No node is open between two searches, so that the next one may set out anywhere.
      have hdepth : g.DepthFirst found finished [i] :=
        ⟨hsettled, fun k hk hnot => absurd (hclosed hk) hnot, fun j _ hj => hclosed hj⟩
      have hnextSettled := search_settled found finished [i] hdepth hnext
      obtain ⟨hresult, hkept, hrest⟩ := ih h hnextClosed hnextSettled
      have hdone : i ∈ next.2 := hexplored.stack_subset List.mem_cons_self
      exact ⟨hresult, List.Subset.trans hexplored.finished_subset hkept,
        List.cons_subset.2 ⟨hkept hdone, hrest⟩⟩

theorem finishOrder_settled {order : List (Fin n)} (h : g.finishOrder = .ok order) :
    g.Settled order ∧ ∀ i, i ∈ order := by
  obtain ⟨⟨found, finished⟩, hsearch, h⟩ := bind_eq_ok.1 h
  cases h
  obtain ⟨hsettled, -, hall⟩ := searchAll_settled hsearch (List.nil_subset _) trivial
  exact ⟨hsettled, fun i => hall (List.mem_finRange i)⟩

theorem adjacent_of_search {found finished stack : List (Fin n)} {i : Fin n}
    (h : g.search found finished stack = .error i) : g.Adjacent i i := by
  induction found, finished, stack using search.induct g with
  | case1 found finished =>
    rw [search] at h
    cases h
  | case2 found finished j stack hj ih =>
    rw [search, dif_pos hj] at h
    exact ih h
  | case3 found finished j stack hj hloop =>
    rw [search, dif_neg hj, if_pos hloop] at h
    cases h
    exact mem_successors.1 hloop
  | case4 found finished j stack hj hloop fresh ih =>
    rw [search, dif_neg hj, if_neg hloop] at h
    exact ih h

theorem adjacent_of_searchAll {nodes : List (Fin n)} {state : List (Fin n) × List (Fin n)}
    {i : Fin n} (h : g.searchAll nodes state = .error i) : g.Adjacent i i := by
  induction nodes generalizing state with
  | nil => cases h
  | cons j rest ih =>
    rw [searchAll] at h
    split at h
    · exact ih h
    · rcases bind_eq_error.1 h with h | ⟨next, -, h⟩
      · exact adjacent_of_search h
      · exact ih h

/-- A predecessor that was not met in time leads to the node and can be reached from it. -/
theorem cyclic_of_checkOrder {met order : List (Fin n)} (hnodup : order.Nodup)
    (hsettled : g.Settled order) (hall : ∀ i, i ∈ met ∨ i ∈ order) {i : Fin n}
    (h : g.checkOrder met order = .error i) : TransGen g.Adjacent i i := by
  induction order generalizing met with
  | nil => cases h
  | cons j rest ih =>
    rw [checkOrder] at h
    obtain ⟨hj, hnodup⟩ := List.nodup_cons.1 hnodup
    split at h
    · next k hk =>
      cases h
      have hmem := List.mem_of_getLast? hk
      rw [List.mem_filter, decide_eq_true_eq, List.mem_cons, not_or] at hmem
      obtain ⟨hadj, hij, hmet⟩ := hmem
      have hij' : g.Adjacent i j := mem_predecessors.1 hadj
      -- The predecessor comes later in the order, so that its edge closes a cycle.
      have hlate : i ∈ rest := by
        rcases hall i with hi | hi
        · exact absurd hi hmet
        · exact (List.mem_cons.1 hi).resolve_left hij
      rcases hsettled.2.of_mem hlate hij' with hagain | hback
      · exact absurd hagain hj
      · exact hback.head hij'
    · apply ih hnodup hsettled.2 _ h
      intro k
      rw [List.mem_cons]
      rcases hall k with hk | hk
      · exact .inl (.inr hk)
      · exact (List.mem_cons.1 hk).imp_left .inl

/-- A node that is reported instead of an order lies on a cycle. -/
theorem cyclic_of_topologicalOrder {i : Fin n} (h : g.topologicalOrder = .error i) :
    TransGen g.Adjacent i i := by
  rcases bind_eq_error.1 h with hfinish | ⟨order, hfinish, h⟩
  · rcases bind_eq_error.1 hfinish with hsearch | ⟨state, -, h⟩
    · exact .single (adjacent_of_searchAll hsearch)
    · cases h
  · rcases bind_eq_error.1 h with hcheck | ⟨_, -, h⟩
    · obtain ⟨hsettled, hall⟩ := finishOrder_settled hfinish
      exact cyclic_of_checkOrder (loopless_of_finishOrder hfinish).1 hsettled
        (fun i => .inr (hall i)) hcheck
    · cases h

/-- A topological order has every node. -/
theorem perm_of_topologicalOrder {order : List (Fin n)} (h : g.topologicalOrder = .ok order) :
    order.Perm (List.finRange n) := by
  have hnodup := (forward_of_topologicalOrder h).1
  obtain ⟨found, hfinish, h⟩ := bind_eq_ok.1 h
  obtain ⟨_, -, h⟩ := bind_eq_ok.1 h
  cases h
  rw [List.perm_ext_iff_of_nodup hnodup (List.nodup_finRange n)]
  intro i
  exact iff_of_true ((finishOrder_settled hfinish).2 i) (List.mem_finRange i)

/-- In a topological order, every edge leads from an earlier position to a later one. -/
theorem getElem_lt_of_topologicalOrder {order : List (Fin n)} (h : g.topologicalOrder = .ok order)
    {a b : Nat} (ha : a < order.length) (hb : b < order.length)
    (hab : g.Adjacent order[a] order[b]) : a < b := by
  obtain ⟨-, hloopless, hforward⟩ := forward_of_topologicalOrder h
  rcases Nat.lt_trichotomy a b with hlt | rfl | hgt
  · exact hlt
  · exact absurd hab (hloopless _ (List.getElem_mem ha))
  · exact absurd hab (List.pairwise_iff_getElem.1 hforward b a hb ha hgt)

/-- A graph with a topological order has no cycle. -/
theorem acyclic_of_topologicalOrder {order : List (Fin n)} (h : g.topologicalOrder = .ok order)
    (i : Fin n) : ¬TransGen g.Adjacent i i := by
  have hmem : ∀ j, j ∈ order := fun j =>
    (perm_of_topologicalOrder h).mem_iff.2 (List.mem_finRange j)
  have hlater : ∀ j, TransGen g.Adjacent i j → order.idxOf i < order.idxOf j := by
    intro j hij
    have hstep : ∀ {a b}, g.Adjacent a b → order.idxOf a < order.idxOf b := by
      intro a b hab
      have ha := List.idxOf_lt_length_of_mem (hmem a)
      have hb := List.idxOf_lt_length_of_mem (hmem b)
      apply getElem_lt_of_topologicalOrder h ha hb
      rwa [List.getElem_idxOf, List.getElem_idxOf]
    induction hij with
    | single hab => exact hstep hab
    | tail _ hab ih => exact Nat.lt_trans ih (hstep hab)
  intro hcycle
  exact Nat.lt_irrefl _ (hlater i hcycle)

end NestedLogit.Digraph
