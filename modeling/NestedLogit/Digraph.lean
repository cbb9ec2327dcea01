/-!
# Directed graphs

Graphs on the nodes `0, …, n - 1` with at most one edge between two nodes in each direction. The
edges at a node are listed with the newest first.
-/

namespace NestedLogit

/-- A directed graph with `n` nodes. -/
structure Digraph (n : Nat) where
  /-- The edges, as pairs of source and target, the newest first. -/
  edges : List (Fin n × Fin n)
  nodup : edges.Nodup

namespace Digraph

variable {n : Nat}

/-- The graph without edges. -/
def empty (n : Nat) : Digraph n :=
  ⟨[], .nil⟩

/-- Adds an edge, unless it is there already. -/
def addEdge (g : Digraph n) (source target : Fin n) : Digraph n :=
  if h : (source, target) ∈ g.edges then g
  else ⟨(source, target) :: g.edges, List.nodup_cons.2 ⟨h, g.nodup⟩⟩

/-- The nodes that edges from a node lead to. -/
def successors (g : Digraph n) (i : Fin n) : List (Fin n) :=
  g.edges.filterMap fun e => if e.1 = i then some e.2 else none

/-- The nodes that edges to a node come from. -/
def predecessors (g : Digraph n) (i : Fin n) : List (Fin n) :=
  g.edges.filterMap fun e => if e.2 = i then some e.1 else none

/-- Whether there is an edge from one node to another. -/
def Adjacent (g : Digraph n) (i j : Fin n) : Prop :=
  (i, j) ∈ g.edges

@[simp] theorem mem_edges_addEdge (g : Digraph n) (i j : Fin n) (e : Fin n × Fin n) :
    e ∈ (g.addEdge i j).edges ↔ e = (i, j) ∨ e ∈ g.edges := by
  unfold addEdge
  split
  · next h => exact ⟨.inr, fun h' => h'.elim (fun e => e ▸ h) id⟩
  · exact List.mem_cons

theorem mem_successors {g : Digraph n} {i j : Fin n} : j ∈ g.successors i ↔ g.Adjacent i j := by
  simp only [successors, Adjacent, List.mem_filterMap]
  constructor
  · rintro ⟨⟨a, b⟩, he, h⟩
    split at h
    · cases h; simp_all
    · cases h
  · exact fun h => ⟨(i, j), h, by simp⟩

theorem mem_predecessors {g : Digraph n} {i j : Fin n} :
    j ∈ g.predecessors i ↔ g.Adjacent j i := by
  simp only [predecessors, Adjacent, List.mem_filterMap]
  constructor
  · rintro ⟨⟨a, b⟩, he, h⟩
    split at h
    · cases h; simp_all
    · cases h
  · exact fun h => ⟨(j, i), h, by simp⟩

end Digraph

end NestedLogit
