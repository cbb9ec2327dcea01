import NestedLogit.Model.Placement
import NestedLogit.Model.Rows

/-!
# Prices from rows

The price of a good in a region is given for some years and carried forward.
-/

namespace NestedLogit

variable {α : Type} {n : Nat}

/-- Puts one amount of a good per period into a table. -/
def GoodTable.putSeries (t : GoodTable α) (good : GoodId) (amounts : Series n α) : GoodTable α :=
  amounts.toPairs.foldl (fun t x => GoodTable.put t good x.1 x.2) t

/-- Price series by region and good. -/
abbrev PriceList (n : Nat) (α : Type) := List ((RegionId × GoodId) × Series n α)

/-- The prices of one region, with the goods in the order of the list. -/
def PriceList.ofRegion (prices : PriceList n α) (region : RegionId) : GoodTable α :=
  (prices.filter fun x => x.1.1 = region).foldl (fun t x => GoodTable.putSeries t x.1.2 x.2) .empty

variable [Quantity α]

/-- The prices that rows give, carried forward. -/
def PriceList.ofRows (c : Calendar n) (regions : List RegionId) :
    List (PriceRow α) → Except (RowError α) (PriceList n α) :=
  groupRows place .duplicatePriceYear
    fun key prices => (prices.carryForward c 0).mapError (.priceSeries key.1 key.2)
where
  /-- A row under the region and the good it is for. -/
  place (row : PriceRow α) :
      Except (RowError α) (List (KeyedRow (RegionId × GoodId) α)) := do
    let region ← (Id.find regions row.region.name).mapError .unknownRegion
    if !isAmount row.price then throw (.invalidPrice region row.good)
    return [⟨(region, row.good), ← rowPeriod c row.year, row.price⟩]

end NestedLogit
