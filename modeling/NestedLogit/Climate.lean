import NestedLogit.Event
import NestedLogit.Id
import NestedLogit.OrderedMap
import NestedLogit.Quantity

/-!
# Climate

A minimal climate model, which adds up the emissions of all regions over the periods. The emissions
of a region in a period can be set again at any time; the cumulative totals are those of the last
time the model was run.
-/

namespace NestedLogit

/-- The emissions of regions and their cumulative totals. -/
structure EmissionsAccount (α : Type) where
  /-- The emissions last set for each region and period. -/
  emissions : OrderedMap (RegionId × Nat) α
  /-- The cumulative total up to each period that was run, from the first period on. -/
  cumulative : List α

namespace EmissionsAccount

variable {α : Type}

/-- An account without emissions that was not run. -/
def empty : EmissionsAccount α :=
  ⟨.empty, []⟩

/-- Sets the emissions of a region in a period. -/
def setEmissions (a : EmissionsAccount α) (region : RegionId) (period : Nat) (amount : α) :
    EmissionsAccount α :=
  { a with emissions := a.emissions.insert (region, period) amount }

/-- The cumulative total up to a period, if the model was run that far. -/
def cumulative? (a : EmissionsAccount α) (period : Nat) : Option α :=
  a.cumulative[period]?

variable [Quantity α]

/-- The emissions of all regions in a period. -/
def total (a : EmissionsAccount α) (period : Nat) : α :=
  Quantity.total (a.emissions.entries.filterMap fun e => if e.1.2 = period then some e.2 else none)

/-- Totals continued from given ones by a number of periods. -/
def extend (a : EmissionsAccount α) (totals : List α) : Nat → List α
  | 0 => totals
  | count + 1 =>
    extend a (totals ++ [(totals.getLast?.getD 0) + a.total totals.length]) count

/-- Runs the model up to a period. Totals of earlier periods that were run before are kept. -/
def run (a : EmissionsAccount α) (period : Nat) : EmissionsAccount α :=
  let kept := a.cumulative.take period
  { a with cumulative := a.extend kept (period + 1 - kept.length) }

/-- What running the model up to a period reports. -/
def report (a : EmissionsAccount α) (period : Nat) : List (Event α) :=
  (a.cumulative? period).toList.map (.emissionsCumulated period ·)

end EmissionsAccount

end NestedLogit
