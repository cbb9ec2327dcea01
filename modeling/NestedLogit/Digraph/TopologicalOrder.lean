import NestedLogit.Digraph

/-!
# Topological order

Orders the nodes of a graph so that every edge leads from an earlier node to a later one, or names a
node on a cycle. A depth-first search along the edges lists the nodes in the order in which they are
finished; the order is this list backwards. It is then checked from the front: a node whose
predecessors were not all met before it lies on a cycle with one of them.
-/

namespace NestedLogit.Digraph

variable {n : Nat}

/-- The number of nodes that are not in a list. -/
def missing (seen : List (Fin n)) : Nat :=
  (List.finRange n).countP fun i => i ∉ seen

theorem missing_cons_lt {seen : List (Fin n)} {i : Fin n} (h : i ∉ seen) :
    missing (i :: seen) < missing seen := by
  unfold missing
  have key : ∀ l : List (Fin n), i ∈ l →
      l.countP (fun j => j ∉ i :: seen) < l.countP (fun j => j ∉ seen) := by
    intro l
    induction l with
    | nil => simp
    | cons a l ih =>
      intro hi
      have mono : l.countP (fun j => j ∉ i :: seen) ≤ l.countP (fun j => j ∉ seen) :=
        List.countP_mono_left fun x _ hx => by simp_all
      by_cases ha : a = i
      · subst ha
        simp [h] at mono ⊢
        omega
      · have hmem : i ∈ l := by simpa [Ne.symm ha] using hi
        have := ih hmem
        by_cases hs : a ∈ seen <;> simp [ha, hs] at this ⊢ <;> omega
  exact key _ (List.mem_finRange i)

/-- Searches from the nodes on a stack. A node is found when it first comes to the top; then its
successors that were not found before are put on top of it. When it comes to the top again, it is
finished. The result lists the found nodes and the finished ones, each newest first. An edge from a
node to itself ends the search. -/
def search (g : Digraph n) (found finished : List (Fin n)) :
    List (Fin n) → Except (Fin n) (List (Fin n) × List (Fin n))
  | [] => .ok (found, finished)
  | i :: stack =>
    if _h : i ∈ found then
      search g found (if i ∈ finished then finished else i :: finished) stack
    else if i ∈ g.successors i then .error i
    else
      let fresh := (g.successors i).filter fun j => j ∉ i :: found
      search g (i :: found) finished (fresh.reverse ++ i :: stack)
  termination_by stack => (missing found, stack.length)
  decreasing_by
    · exact Prod.Lex.right _ (Nat.lt_succ_self _)
    · exact Prod.Lex.left _ _ (missing_cons_lt _h)

/-- Searches from each node of a list that was not found before. -/
def searchAll (g : Digraph n) :
    List (Fin n) → List (Fin n) × List (Fin n) → Except (Fin n) (List (Fin n) × List (Fin n))
  | [], state => .ok state
  | i :: rest, (found, finished) =>
    if i ∈ found then searchAll g rest (found, finished)
    else do searchAll g rest (← search g found finished [i])

/-- The nodes in the opposite of the order in which a search from every node finishes them. -/
def finishOrder (g : Digraph n) : Except (Fin n) (List (Fin n)) := do
  let (_, finished) ← searchAll g (List.finRange n) ([], [])
  return finished

/-- Checks that every node comes after its predecessors, given the nodes met before. -/
def checkOrder (g : Digraph n) (met : List (Fin n)) : List (Fin n) → Except (Fin n) Unit
  | [] => .ok ()
  | i :: rest =>
    match ((g.predecessors i).filter fun j => j ∉ i :: met).getLast? with
    | some j => .error j
    | none => checkOrder g (i :: met) rest

/-- The nodes in topological order, or a node on a cycle. -/
def topologicalOrder (g : Digraph n) : Except (Fin n) (List (Fin n)) := do
  let order ← g.finishOrder
  g.checkOrder [] order
  return order

end NestedLogit.Digraph
