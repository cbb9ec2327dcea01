import NestedLogit.Id
import NestedLogit.OrderedMap
import NestedLogit.Quantity

/-!
# Markets

The prices, supplies and demands of goods in one region. Prices are set from outside and read by
technologies; supplies and demands are the result of a calculation.
-/

namespace NestedLogit

/-- An amount for each of some goods in some periods. -/
abbrev GoodTable (α : Type) := OrderedMap (GoodId × Nat) α

namespace GoodTable

variable {α : Type}

/-- The amount of a good in a period. -/
def amount? (t : GoodTable α) (good : GoodId) (period : Nat) : Option α :=
  t.get? (good, period)

/-- Sets the amount of a good in a period. -/
def put (t : GoodTable α) (good : GoodId) (period : Nat) (amount : α) : GoodTable α :=
  t.insert (good, period) amount

/-- Adds to the amount of a good in a period, which is zero before the first addition. -/
def add [Quantity α] (t : GoodTable α) (good : GoodId) (period : Nat) (amount : α) : GoodTable α :=
  t.upsert (good, period) 0 (· + amount)

/-- Forgets the amounts of a period. -/
def clearPeriod (t : GoodTable α) (period : Nat) : GoodTable α :=
  t.filterKeys fun k => k.2 ≠ period

/-- The goods with their amounts in a period, in the order in which they were put in. -/
def inPeriod (t : GoodTable α) (period : Nat) : List (GoodId × α) :=
  t.entries.filterMap fun e => if e.1.2 = period then some (e.1.1, e.2) else none

end GoodTable

/-- The prices, supplies and demands of a region. -/
structure Market (α : Type) where
  prices : GoodTable α
  supplies : GoodTable α
  demands : GoodTable α

namespace Market

variable {α : Type}

/-- A market without goods. -/
def empty : Market α :=
  ⟨.empty, .empty, .empty⟩

instance : Inhabited (Market α) := ⟨empty⟩

/-- Forgets the calculated supplies and demands of a period. Prices stay. -/
def clearPeriod (m : Market α) (period : Nat) : Market α :=
  { m with
    supplies := GoodTable.clearPeriod m.supplies period
    demands := GoodTable.clearPeriod m.demands period }

end Market

end NestedLogit
