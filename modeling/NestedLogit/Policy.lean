import NestedLogit.Id
import NestedLogit.Series

/-!
# Policies

A policy imposes a tax on emissions in some regions or in all of them.
-/

namespace NestedLogit

/-- A carbon tax over the `n` periods of a model. -/
structure Policy (n : Nat) (α : Type) where
  name : String
  /-- The regions that the tax is imposed in; without a list, all of them. -/
  regions : Option (List RegionId)
  /-- The tax per unit of emissions. -/
  tax : Series n α

/-- Whether a policy applies to a region. -/
def Policy.covers {n : Nat} {α : Type} (p : Policy n α) (region : RegionId) : Bool :=
  match p.regions with
  | none => true
  | some regions => decide (region ∈ regions)

end NestedLogit
