import NestedLogit.Model.Placement
import NestedLogit.Model.Rows
import NestedLogit.Policy

/-!
# Carbon taxes from rows

The rows of a policy name the same regions in every year, and its tax is carried forward. No region
is covered by two policies.
-/

namespace NestedLogit

variable {α : Type} {n : Nat} [Quantity α]

namespace CarbonTaxRow

/-- The rows under the names of their policies, given the policies of the rows before them with
their regions. -/
def place (c : Calendar n) (seen : List (String × String)) :
    List (CarbonTaxRow α) → Except (RowError α) (List (KeyedRow String (CarbonTaxRow α)))
  | [] => .ok []
  | row :: rest => do
    if !Quantity.isFinite row.tax then throw (.invalidTax row.policy)
    if ((seen.lookup row.policy).getD row.regions) ≠ row.regions then
      throw (.regionsDiffer row.policy)
    let period ← rowPeriod c row.year
    return ⟨row.policy, period, row⟩ :: (← place c (seen ++ [(row.policy, row.regions)]) rest)

/-- The regions that rows of a policy name, in order and each once; none if the policy is for all
regions. -/
def listedRegions (regions : List RegionId) (rows : Sparse (CarbonTaxRow α)) :
    Except (RowError α) (Option (List RegionId)) :=
  let text := (rows.entries.head?.map (·.2.regions)).getD ""
  if isAllRegions (Text.trim text) then .ok none
  else (((parseRegions text regions).map Id.sorted).mapError .policyRegions).map some

end CarbonTaxRow

namespace Policy

/-- The policies of groups of rows, given the regions that are covered already. -/
def ofGroups (c : Calendar n) (regions covered : List RegionId) :
    List (String × Sparse (CarbonTaxRow α)) → Except (RowError α) (List (Policy n α))
  | [] => .ok []
  | (name, rows) :: rest => do
    let listed ← CarbonTaxRow.listedRegions regions rows
    let scope := listed.getD regions
    match scope.find? (· ∈ covered) with
    | some region => throw (.coveredTwice region)
    | none =>
      let taxes := rows.filterMap fun row => some row.tax
      let tax ← (taxes.carryForward c 0).mapError (.taxSeries name)
      return ⟨name, listed, tax⟩ :: (← ofGroups c regions (covered ++ scope) rest)

/-- The policies that rows give. -/
def ofRows (c : Calendar n) (regions : List RegionId) (rows : List (CarbonTaxRow α)) :
    Except (RowError α) (List (Policy n α)) := do
  let placed ← CarbonTaxRow.place c [] rows
  let groups ← (Grouping.ofRows placed).mapError .duplicateTaxYear
  ofGroups c regions [] groups.entries

end Policy

end NestedLogit
