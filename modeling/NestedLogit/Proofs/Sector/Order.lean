import Mathlib.Data.List.Nodup
import Mathlib.Data.List.Permutation
import NestedLogit.Proofs.Digraph.TopologicalOrder
import NestedLogit.Sector.Order

/-!
# Laws of the order of sectors

Sectors that produce different goods are put into an order in which no sector consumes its own good
or that of an earlier one.

## Main definitions

- `Sector.InOrder` — an order in which every consumer comes before its suppliers

## Main statements

- `Sector.adjacent_dependencies` — the edges of the graph are the fuels of the sectors
- `Sector.inOrder_of_order` — sectors that were put in order are in order
-/

namespace NestedLogit.Sector

variable {n : Nat} {α : Type} {sectors : List (Sector n α)}

/-- The sectors produce different goods, none consumes its own, and none consumes the good of a
sector before it. -/
structure InOrder (sectors : List (Sector n α)) : Prop where
  nodup : (sectors.map (·.good)).Nodup
  own : ∀ s ∈ sectors, s.good ∉ s.fuels
  earlier : sectors.Pairwise fun s t => s.good ∉ t.fuels

/-- Being in order is a matter of the goods and the fuels alone. -/
theorem inOrder_iff :
    InOrder sectors ↔
      ((sectors.map fun s => (s.good, s.fuels)).map (·.1)).Nodup ∧
        (∀ x ∈ sectors.map fun s => (s.good, s.fuels), x.1 ∉ x.2) ∧
        (sectors.map fun s => (s.good, s.fuels)).Pairwise fun x y => x.1 ∉ y.2 := by
  rw [List.map_map, List.forall_mem_map, List.pairwise_map]
  constructor
  · intro h
    exact ⟨h.nodup, h.own, h.earlier⟩
  · rintro ⟨hnodup, hown, hearlier⟩
    exact ⟨hnodup, hown, hearlier⟩

/-- A producer of a good produces it. -/
theorem good_of_producer? {good : GoodId} {i : Fin sectors.length}
    (h : producer? sectors good = some i) : (sectors.get i).good = good := by
  simpa using List.find?_some h

/-- Sectors with different goods are the producers of their goods. -/
theorem producer?_good (h : (sectors.map (·.good)).Nodup) (i : Fin sectors.length) :
    producer? sectors (sectors.get i).good = some i := by
  cases hp : producer? sectors (sectors.get i).good with
  | none =>
    have hnone := List.find?_eq_none.1 hp i (by simp)
    simp at hnone
  | some k =>
    -- The sector that is found has the good as well, so that it stands in the same place.
    have hk := good_of_producer? hp
    have hk' : k.val < (sectors.map (·.good)).length := by simp
    have hi' : i.val < (sectors.map (·.good)).length := by simp
    have hgood : (sectors.map (·.good))[k.val] = (sectors.map (·.good))[i.val] := by
      simpa using hk
    rw [Fin.ext (h.getElem_inj_iff.1 hgood)]

/-- Adding the edges from one node keeps all edges and adds those to the targets. -/
theorem mem_edges_foldl_addEdge {m : Nat} (g : Digraph m) (source : Fin m)
    (targets : List (Fin m)) (e : Fin m × Fin m) :
    e ∈ (targets.foldl (fun g target => g.addEdge source target) g).edges ↔
      (e.1 = source ∧ e.2 ∈ targets) ∨ e ∈ g.edges := by
  induction targets generalizing g with
  | nil => simp
  | cons t rest ih =>
    rw [List.foldl_cons, ih, Digraph.mem_edges_addEdge, List.mem_cons, Prod.ext_iff]
    tauto

/-- There is an edge exactly from the producer of a sector's good to the producers of its fuels. -/
theorem mem_edges_foldl_addDependencies (g : Digraph sectors.length) (ss : List (Sector n α))
    (e : Fin sectors.length × Fin sectors.length) :
    e ∈ (ss.foldl (addDependencies sectors) g).edges ↔
      (∃ s ∈ ss, producer? sectors s.good = some e.1 ∧
        ∃ fuel ∈ s.fuels, producer? sectors fuel = some e.2) ∨ e ∈ g.edges := by
  induction ss generalizing g with
  | nil => simp
  | cons s rest ih =>
    have hone : e ∈ (addDependencies sectors g s).edges ↔
        (producer? sectors s.good = some e.1 ∧
          ∃ fuel ∈ s.fuels, producer? sectors fuel = some e.2) ∨ e ∈ g.edges := by
      unfold addDependencies
      cases hp : producer? sectors s.good with
      | none => simp
      | some consumer =>
        rw [mem_edges_foldl_addEdge, List.mem_filterMap, Option.some.injEq, eq_comm]
    rw [List.foldl_cons, ih, hone, List.exists_mem_cons_iff, or_assoc, or_left_comm]

/-- Among sectors with different goods, an edge leads from a sector to another exactly if it
consumes the other's good. -/
theorem adjacent_dependencies (h : (sectors.map (·.good)).Nodup) {i j : Fin sectors.length} :
    (dependencies sectors).Adjacent i j ↔ (sectors.get j).good ∈ (sectors.get i).fuels := by
  rw [Digraph.Adjacent, dependencies, mem_edges_foldl_addDependencies]
  constructor
  · rintro (⟨s, hs, hi, fuel, hfuel, hj⟩ | hempty)
    · obtain ⟨k, hk, rfl⟩ := List.getElem_of_mem hs
      have hik : (⟨k, hk⟩ : Fin sectors.length) = i :=
        Option.some.inj ((producer?_good h ⟨k, hk⟩).symm.trans hi)
      rw [good_of_producer? hj, ← hik]
      exact hfuel
    · cases hempty
  · intro hmem
    exact .inl ⟨sectors.get i, List.get_mem _ _, producer?_good h i, _, hmem, producer?_good h j⟩

/-- Sectors that were put in order are in order. -/
theorem inOrder_of_order (h : (sectors.map (·.good)).Nodup) {ordered : List (Sector n α)}
    (ho : order sectors = .ok ordered) : InOrder ordered := by
  unfold order at ho
  split at ho
  · next indices hindices =>
    cases ho
    obtain ⟨hnodup, hloopless, hforward⟩ := Digraph.forward_of_topologicalOrder hindices
    refine ⟨?_, ?_, ?_⟩
    · rw [List.map_map]
      refine hnodup.map ?_
      intro i j hij
      have hgood : (sectors.get i).good = (sectors.get j).good := hij
      have hi := producer?_good h i
      rw [hgood, producer?_good h j] at hi
      exact (Option.some.inj hi).symm
    · intro s hs hmem
      obtain ⟨i, hi, rfl⟩ := List.mem_map.1 hs
      exact hloopless i hi ((adjacent_dependencies h).2 hmem)
    · rw [List.pairwise_map]
      exact hforward.imp fun hback hmem => hback ((adjacent_dependencies h).2 hmem)
  · cases ho

end NestedLogit.Sector
