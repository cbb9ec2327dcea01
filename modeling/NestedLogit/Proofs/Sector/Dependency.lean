import Mathlib.Data.List.FinRange
import NestedLogit.Proofs.Digraph.Cycle
import NestedLogit.Proofs.Quantity.Exact
import NestedLogit.Proofs.Sector.Order

/-!
# Which sectors can be put in order

Sectors that produce different goods have an order in which every consumer comes before its
suppliers, unless some of them depend on each other in a cycle.

## Main definitions

- `Sector.Consumes` — a sector has a technology for the good of another
- `Sector.ConsumesIn` — so it does, and both are among some sectors

## Main statements

- `Sector.cyclic_of_order` — the good that is named in an error is produced on a cycle
- `Sector.order_sorts` — there is an order unless there is a cycle, and every consumer comes first
- `Sector.order_names_cycle` — the message of an error names a sector on a cycle
-/

namespace NestedLogit.Sector

open Relation

variable {n : Nat} {α : Type} {sectors : List (Sector n α)}

/-- Whether a sector has a technology whose fuel is the good of another. -/
def Consumes (s t : Sector n α) : Prop :=
  ∃ x ∈ s.technologies, x.fuel = some t.good

/-- Consumption between two out of some sectors. -/
def ConsumesIn (sectors : List (Sector n α)) (s t : Sector n α) : Prop :=
  s ∈ sectors ∧ t ∈ sectors ∧ s.Consumes t

theorem consumes_iff {s t : Sector n α} : s.Consumes t ↔ t.good ∈ s.fuels := by
  rw [fuels, List.mem_filterMap]
  rfl

theorem adjacent_iff_consumes (h : (sectors.map (·.good)).Nodup) {i j : Fin sectors.length} :
    (dependencies sectors).Adjacent i j ↔ (sectors.get i).Consumes (sectors.get j) := by
  rw [adjacent_dependencies h, consumes_iff]

/-- A path in the graph is a chain of consumers. -/
theorem transGen_get (h : (sectors.map (·.good)).Nodup) {i j : Fin sectors.length}
    (hij : TransGen (dependencies sectors).Adjacent i j) :
    TransGen (ConsumesIn sectors) (sectors.get i) (sectors.get j) := by
  refine TransGen.lift sectors.get ?_ _ _ hij
  intro a b hab
  exact ⟨List.get_mem _ _, List.get_mem _ _, (adjacent_iff_consumes h).1 hab⟩

/-- A chain of consumers is a path in the graph. -/
theorem exists_transGen_get (h : (sectors.map (·.good)).Nodup) {s t : Sector n α}
    (hst : TransGen (ConsumesIn sectors) s t) :
    ∃ i j, sectors.get i = s ∧ sectors.get j = t ∧
      TransGen (dependencies sectors).Adjacent i j := by
  induction hst with
  | single hst =>
    obtain ⟨hs, ht, hconsumes⟩ := hst
    obtain ⟨i, rfl⟩ := List.mem_iff_get.1 hs
    obtain ⟨j, rfl⟩ := List.mem_iff_get.1 ht
    exact ⟨i, j, rfl, rfl, .single ((adjacent_iff_consumes h).2 hconsumes)⟩
  | tail _ hbc ih =>
    obtain ⟨i, j, hi, rfl, hij⟩ := ih
    obtain ⟨-, hc, hconsumes⟩ := hbc
    obtain ⟨k, rfl⟩ := List.mem_iff_get.1 hc
    exact ⟨i, k, hi, rfl, hij.tail ((adjacent_iff_consumes h).2 hconsumes)⟩

/-- The good that is named when sectors cannot be put in order is produced by a sector that depends
on itself. -/
theorem cyclic_of_order (h : (sectors.map (·.good)).Nodup) {e : DependencyCycle}
    (he : order sectors = .error e) :
    ∃ s, s.good = e.good ∧ TransGen (ConsumesIn sectors) s s := by
  unfold order at he
  split at he
  · cases he
  · next i hi =>
    cases he
    exact ⟨sectors.get i, rfl, transGen_get h (Digraph.cyclic_of_topologicalOrder hi)⟩

theorem exists_of_order {ordered : List (Sector n α)} (ho : order sectors = .ok ordered) :
    ∃ indices, (dependencies sectors).topologicalOrder = .ok indices ∧
      ordered = indices.map sectors.get := by
  unfold order at ho
  split at ho
  · next indices hindices =>
    cases ho
    exact ⟨indices, hindices, rfl⟩
  · cases ho

theorem perm_of_order {ordered : List (Sector n α)} (ho : order sectors = .ok ordered) :
    ordered.Perm sectors := by
  obtain ⟨indices, hindices, rfl⟩ := exists_of_order ho
  have hperm := (Digraph.perm_of_topologicalOrder hindices).map sectors.get
  rwa [List.map_get_finRange] at hperm

theorem acyclic_of_order (h : (sectors.map (·.good)).Nodup) {ordered : List (Sector n α)}
    (ho : order sectors = .ok ordered) (s : Sector n α) : ¬TransGen (ConsumesIn sectors) s s := by
  obtain ⟨indices, hindices, -⟩ := exists_of_order ho
  intro hcycle
  obtain ⟨i, j, hi, hj, hij⟩ := exists_transGen_get h hcycle
  have hsame : i = j := List.nodup_iff_injective_get.1 h.of_map (hi.trans hj.symm)
  subst hsame
  exact Digraph.acyclic_of_topologicalOrder hindices i hij

/-- In an order, every consumer stands strictly before its suppliers. -/
theorem lt_of_consumes (h : (sectors.map (·.good)).Nodup) {ordered : List (Sector n α)}
    (ho : order sectors = .ok ordered) (i j : Fin ordered.length)
    (hij : (ordered.get i).Consumes (ordered.get j)) : i < j := by
  obtain ⟨indices, hindices, rfl⟩ := exists_of_order ho
  have hlength : (indices.map sectors.get).length = indices.length := List.length_map _
  apply Digraph.getElem_lt_of_topologicalOrder hindices (hlength ▸ i.isLt) (hlength ▸ j.isLt)
  rw [adjacent_iff_consumes h]
  simpa using hij

/-- Sectors that produce different goods cannot be put in order exactly if a chain of consumers
leads from a sector back to itself. An order has the same sectors, and every consumer comes strictly
before all of its suppliers. -/
theorem order_sorts (h : (sectors.map (·.good)).Nodup) :
    ((∃ e, order sectors = .error e) ↔ ∃ s, TransGen (ConsumesIn sectors) s s) ∧
      ∀ ordered, order sectors = .ok ordered →
        ordered.Perm sectors ∧
          ∀ i j : Fin ordered.length, (ordered.get i).Consumes (ordered.get j) → i < j := by
  refine ⟨⟨?_, ?_⟩, ?_⟩
  · rintro ⟨e, he⟩
    obtain ⟨s, -, hcycle⟩ := cyclic_of_order h he
    exact ⟨s, hcycle⟩
  · rintro ⟨s, hcycle⟩
    cases ho : order sectors with
    | error e => exact ⟨e, rfl⟩
    | ok ordered => exact absurd hcycle (acyclic_of_order h ho s)
  · intro ordered ho
    exact ⟨perm_of_order ho, lt_of_consumes h ho⟩

/-- A sector with one technology for each of some fuels. -/
def fueledSector (good : String) (fuels : List String) : Sector 1 ℚ :=
  let plants : Subsector 1 ℚ :=
    { (Subsector.new 1 ⟨⟨"island"⟩, ⟨good⟩, ⟨"plants"⟩⟩ : Subsector 1 ℚ) with
      technologies := fuels.map fun fuel => Technology.new 1 ⟨fuel⟩ (some ⟨fuel⟩) }
  { (Sector.new 1 ⟨⟨"island"⟩, ⟨good⟩⟩ : Sector 1 ℚ) with subsectors := [plants] }

/-- Buildings need power and gas, power needs gas and coal, and nobody produces coal. -/
def islandSectors : List (Sector 1 ℚ) :=
  [fueledSector "power" ["gas", "coal"], fueledSector "gas" [],
    fueledSector "buildings" ["power", "gas"]]

theorem islandSectors_sorted :
    (islandSectors.map (·.good)).Nodup ∧
      ((∃ e, order islandSectors = .error e) ↔ ∃ s, TransGen (ConsumesIn islandSectors) s s) ∧
      ∀ ordered, order islandSectors = .ok ordered →
        ordered.Perm islandSectors ∧
          ∀ i j : Fin ordered.length, (ordered.get i).Consumes (ordered.get j) → i < j := by
  have h : (islandSectors.map (·.good)).Nodup := by decide
  exact ⟨h, order_sorts h⟩

example : (order islandSectors).toOption.map (List.map fun s => s.good.name)
    = some ["buildings", "power", "gas"] := by
  cbv

/-- Where sectors that produce different goods cannot be put in order, the message names the good of
a sector that depends on itself, and of no other sector. -/
theorem order_names_cycle (h : (sectors.map (·.good)).Nodup) {e : DependencyCycle}
    (he : order sectors = .error e) :
    ∃ s ∈ sectors, TransGen (ConsumesIn sectors) s s ∧
      (∀ t ∈ sectors, t.good = e.good ↔ t = s) ∧
      e.message = s!"Cycle detected in sector fuel dependencies for good {s.good}" := by
  obtain ⟨s, hgood, hcycle⟩ := cyclic_of_order h he
  obtain ⟨t, ⟨hs, -, -⟩, -⟩ := TransGen.head'_iff.1 hcycle
  obtain ⟨good⟩ := e
  obtain rfl : s.good = good := hgood
  exact ⟨s, hs, hcycle, fun t ht => ⟨List.inj_on_of_nodup_map h ht hs, congrArg Sector.good⟩, rfl⟩

/-- Buildings need power, power needs gas, and gas needs power. -/
def entangledSectors : List (Sector 1 ℚ) :=
  [fueledSector "buildings" ["power"], fueledSector "power" ["gas"], fueledSector "gas" ["power"]]

theorem entangledSectors_name_cycle :
    ((entangledSectors.map (·.good)).Nodup ∧ order entangledSectors = .error ⟨⟨"gas"⟩⟩) ∧
      ∃ s ∈ entangledSectors, TransGen (ConsumesIn entangledSectors) s s ∧
        (∀ t ∈ entangledSectors, t.good = ⟨"gas"⟩ ↔ t = s) ∧
        (⟨⟨"gas"⟩⟩ : DependencyCycle).message
          = s!"Cycle detected in sector fuel dependencies for good {s.good}" := by
  have h : (entangledSectors.map (·.good)).Nodup := by decide
  have he : order entangledSectors = .error ⟨⟨"gas"⟩⟩ := by cbv
  exact ⟨⟨h, he⟩, order_names_cycle h he⟩

end NestedLogit.Sector
