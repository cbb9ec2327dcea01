import NestedLogit.Quantity

/-!
# Sharing under capacity limits

A pool is shared out between claims in proportion to their weights, and no claim gets more than its
limit. A pass shares out what the limited claims leave over between the others; claims that would
get more than their limit are given exactly the limit and are limited from then on. Passes are
repeated until one limits no further claim.
-/

namespace NestedLogit

/-- A claim on a pool: a weight, if the claim takes part, and the most it can get. -/
structure Claim (α : Type) where
  weight : Option α
  limit : α

/-- What a claim holds during the passes, and whether its limit binds. -/
structure Holding (α : Type) extends Claim α where
  share : α
  limited : Bool

/-- Why a pool cannot be shared out. -/
inductive LimitError (α : Type) where
  /-- The limits leave a part of the pool over. -/
  | unallocated (rest : α)
  /-- The passes did not come to an end. -/
  | notConverged

/-- What the passes end with: the holdings and the part of the pool that nobody could take. -/
structure Distribution (α : Type) where
  holdings : List (Holding α)
  unallocated : α

/-- The most passes that are made. Each limits at least one more claim. -/
def maxLimitPasses : Nat := 100

variable {α : Type} [Quantity α]

/-- The part of a pool for a weight out of a total; nothing, if the total is not positive. -/
def portion (pool total weight : α) : α :=
  if 0 < total then pool * weight / total else 0

/-- Shares out a pool in proportion to the weights. An option without a weight gets nothing. -/
def proportionalShares (weights : List (Option α)) (pool : α) : List α :=
  let total := Quantity.total (weights.filterMap id)
  weights.map fun weight => (weight.map (portion pool total)).getD 0

namespace Holding

/-- A claim holds nothing at first. -/
def start (c : Claim α) : Holding α :=
  { toClaim := c, share := 0, limited := false }

/-- The weight with which a holding still competes: none once its limit binds. -/
def openWeight (h : Holding α) : Option α :=
  if h.limited then none else h.weight

/-- The share of a holding whose limit binds. -/
def limitedShare (h : Holding α) : Option α :=
  if h.limited then some h.share else none

/-- Whether a pass that shares out `pool` over the weight `total` limits the holding. -/
def overflows (pool total : α) (h : Holding α) : Bool :=
  match h.openWeight with
  | some weight => h.limit < portion pool total weight
  | none => false

/-- What a holding is after a pass: an open one has its portion of the pool, or its limit if that is
less. -/
def pass (pool total : α) (h : Holding α) : Holding α :=
  match h.openWeight with
  | some weight =>
    if h.overflows pool total then { h with share := h.limit, limited := true }
    else { h with share := portion pool total weight }
  | none => h

end Holding

/-- The part of the pool that the limited holdings leave over. -/
def openPool (pool : α) (holdings : List (Holding α)) : α :=
  Quantity.larger (pool - Quantity.total (holdings.filterMap Holding.limitedShare)) 0

/-- The total weight of the holdings that are still open. -/
def openTotal (holdings : List (Holding α)) : α :=
  Quantity.total (holdings.filterMap Holding.openWeight)

/-- Makes passes until one limits no further holding or no weight is open. -/
def passes (pool : α) : Nat → List (Holding α) → Except (LimitError α) (Distribution α)
  | 0, _ => .error .notConverged
  | fuel + 1, holdings =>
    let rest := openPool pool holdings
    let total := openTotal holdings
    if total ≤ 0 then .ok ⟨holdings, rest⟩
    else
      let next := holdings.map (Holding.pass rest total)
      if holdings.any (Holding.overflows rest total) then passes pool fuel next
      else .ok ⟨next, 0⟩

/-- Shares out a pool under the limits of the claims, and tells what is left over. -/
def distribute (pool : α) (claims : List (Claim α)) :
    Except (LimitError α) (Distribution α) :=
  passes pool maxLimitPasses (claims.map Holding.start)

/-- Shares out a pool under the limits of the claims, which together have to take all of it. -/
def limitShares (pool : α) (claims : List (Claim α)) :
    Except (LimitError α) (List (Holding α)) := do
  let d ← distribute pool claims
  if d.unallocated ≤ Quantity.shareTolerance then .ok d.holdings
  else .error (.unallocated d.unallocated)

omit [Quantity α] in
/-- Pairs weights with limits, one each. -/
def claims? (weights : List (Option α)) (limits : List α) : Option (List (Claim α)) :=
  if weights.length = limits.length then some (List.zipWith Claim.mk weights limits) else none

end NestedLogit
