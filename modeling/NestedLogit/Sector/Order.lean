import NestedLogit.Digraph.TopologicalOrder
import NestedLogit.Sector

/-!
# The order of sectors

A sector can be calculated only when the demand for its good is known, that is, after every sector
that consumes the good. Sectors are put into such an order, unless their fuels depend on each other
in a cycle.
-/

namespace NestedLogit

/-- A good that is, through the fuels of sectors, needed for its own production. -/
structure DependencyCycle where
  good : GoodId
  deriving DecidableEq, Repr

/-- The message for fuels that depend on each other in a cycle. -/
def DependencyCycle.message (e : DependencyCycle) : String :=
  s!"Cycle detected in sector fuel dependencies for good {e.good}"

namespace Sector

variable {n : Nat} {α : Type}

/-- The position of the sector that produces a good; of several, the last one. -/
def producer? (sectors : List (Sector n α)) (good : GoodId) : Option (Fin sectors.length) :=
  (List.finRange sectors.length).reverse.find? fun i => sectors[i].good = good

/-- Adds edges from a sector to the producers of its fuels. A fuel that no sector produces adds
none. -/
def addDependencies (sectors : List (Sector n α)) (g : Digraph sectors.length)
    (s : Sector n α) : Digraph sectors.length :=
  match producer? sectors s.good with
  | none => g
  | some consumer =>
    (s.fuels.filterMap (producer? sectors)).foldl (fun g supplier => g.addEdge consumer supplier) g

/-- The graph with an edge from each sector to every sector that produces one of its fuels. -/
def dependencies (sectors : List (Sector n α)) : Digraph sectors.length :=
  sectors.foldl (addDependencies sectors) (.empty _)

/-- The sectors in an order in which every sector comes before those that produce its fuels. -/
def order (sectors : List (Sector n α)) : Except DependencyCycle (List (Sector n α)) :=
  match (dependencies sectors).topologicalOrder with
  | .ok order => .ok (order.map (sectors[·]))
  | .error i => .error ⟨sectors[i].good⟩

end Sector

end NestedLogit
