import NestedLogit.World

/-!
# Visits

The tree of a world in the order in which reports walk it: every parent before its children, and
everything once.
-/

namespace NestedLogit

/-- One step of a walk through a world. -/
inductive Visit (n : Nat) (α : Type) where
  | region (r : Region n α)
  | sector (s : Sector n α)
  | subsector (s : Subsector n α)
  | technology (parent : Subsector n α) (t : Technology n α)

variable {n : Nat} {α : Type}

namespace Visit

/-- A visit in words: what is visited, and its name. -/
def text : Visit n α → String
  | .region r => s!"region {r.id}"
  | .sector s => s!"sector {s.id}"
  | .subsector s => s!"subsector {s.id}"
  | .technology parent t => s!"technology {parent.id}/{t.id}"

end Visit

/-- The walk through a subsector. -/
def Subsector.visits (s : Subsector n α) : List (Visit n α) :=
  .subsector s :: s.technologies.map (.technology s ·)

/-- The walk through a sector. -/
def Sector.visits (s : Sector n α) : List (Visit n α) :=
  .sector s :: s.subsectors.flatMap Subsector.visits

/-- The walk through a region. -/
def Region.visits (r : Region n α) : List (Visit n α) :=
  .region r :: r.sectors.flatMap Sector.visits

/-- The walk through a world. -/
def World.visits (w : World n α) : List (Visit n α) :=
  w.regions.flatMap Region.visits

end NestedLogit
