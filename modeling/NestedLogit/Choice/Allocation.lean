import NestedLogit.Choice.Contender
import NestedLogit.Choice.Limit

/-!
# Allocation of a market

Shares out a market between contenders. Fixed shares are granted first. What they leave over goes to
the free contenders under their capacity limits, and what these cannot take goes to the priced
contenders in the same way.

If nobody competes for what is left over, the fixed shares are scaled up to the whole market; if
there are none, the market is split equally. Either fallback is named in the result.
-/

namespace NestedLogit

/-- The ways of sharing a market for whose open part nobody competes. -/
inductive Fallback where
  /-- The fixed shares are scaled up so that they fill the market. -/
  | scaledFixedShares
  /-- The contenders without a fixed share take part with equal weights. -/
  | equalSplit
  deriving DecidableEq, Repr

/-- A fallback in words. -/
def Fallback.text : Fallback → String
  | .scaledFixedShares => "fixed shares scaled to fill the market"
  | .equalSplit => "market split equally between options"

/-- Why a market cannot be shared out. -/
inductive AllocationError (α : Type) where
  /-- A capacity limit is not a proportion. -/
  | capacityLimitOutside (limit : α)
  /-- A fixed share is not a proportion. -/
  | fixedShareOutside (share : α)
  /-- A fixed share is larger than the contender's capacity limit. -/
  | fixedShareAboveLimit (share limit : α)
  /-- The fixed shares are larger than the market. -/
  | fixedSharesAboveOne (total : α)
  /-- Every contender has a fixed share, and the fixed shares are all zero. -/
  | nobodyAvailable
  /-- The open part of the market cannot be shared out. -/
  | limits (cause : LimitError α)

/-- What one contender gets: its share, and whether its capacity limit binds. -/
structure Award (α : Type) where
  share : α
  capacityLimited : Bool

/-- A market shared out, with one award per contender in their order. -/
structure Allocation (α : Type) where
  awards : List (Award α)
  fallback : Option Fallback

/-- The shares of an allocation. -/
def Allocation.shares {α : Type} (a : Allocation α) : List α :=
  a.awards.map Award.share

variable {α : Type} [Quantity α]

namespace Contender

/-- Checks the capacity limit and the fixed share of a contender. -/
def check (c : Contender α) : Except (AllocationError α) Unit :=
  if !Quantity.isProportion c.capacityLimit then .error (.capacityLimitOutside c.capacityLimit)
  else match c.fixedShare with
    | none => .ok ()
    | some share =>
      if !Quantity.isProportion share then .error (.fixedShareOutside share)
      else if share ≤ c.capacityLimit + Quantity.shareTolerance then .ok ()
      else .error (.fixedShareAboveLimit share c.capacityLimit)

omit [Quantity α] in
/-- The claim of a contender that takes part with a weight, or not at all. -/
def claim (c : Contender α) (weight : Option α) : Claim α :=
  ⟨weight, c.capacityLimit⟩

/-- What a contender gets out of the shares of the free and of the priced contenders. One that takes
part in neither has its fixed share, if any. -/
def award (c : Contender α) (free priced : Holding α) : Award α :=
  if free.weight.isSome then ⟨free.share, free.limited⟩
  else if priced.weight.isSome then ⟨priced.share, priced.limited⟩
  else ⟨c.fixedShare.getD 0, false⟩

end Contender

/-- The sum of the fixed shares. -/
def fixedTotal (contenders : List (Contender α)) : α :=
  Quantity.total (contenders.filterMap Contender.fixedShare)

/-- The part of the market that fixed shares leave open. -/
def openMarket (contenders : List (Contender α)) : α :=
  Quantity.larger (1 - fixedTotal contenders) 0

/-- The total weight of all who compete for the open part of the market. -/
def competingTotal (contenders : List (Contender α)) : α :=
  Quantity.total
    (contenders.filterMap Contender.freeWeight ++ contenders.filterMap Contender.pricedWeight)

/-- Shares out what the free contenders leave over between the claims of the priced ones, unless it
is nearly nothing. -/
def shareLeftover (rest : α) (claims : List (Claim α)) :
    Except (LimitError α) (List (Holding α)) :=
  if Quantity.shareTolerance < rest then limitShares rest claims
  else .ok (claims.map Holding.start)

/-- Shares out the open part of a market between the free contenders and hands on to the priced ones
what these cannot take. -/
def shareOpenMarket (contenders : List (Contender α)) (free priced : Contender α → Option α) :
    Except (AllocationError α) (List (Award α)) :=
  let freeClaims := contenders.map fun c => c.claim (free c)
  let pricedClaims := contenders.map fun c => c.claim (priced c)
  let shared : Except (LimitError α) (List (Award α)) := do
    let first ← distribute (openMarket contenders) freeClaims
    let second ← shareLeftover first.unallocated pricedClaims
    return List.zipWith (fun c h => c.award h.1 h.2) contenders (first.holdings.zip second)
  shared.mapError .limits

/-- The fixed shares scaled up to the whole market. -/
def scaledFixedShares (contenders : List (Contender α)) : List (Award α) :=
  let total := fixedTotal contenders
  contenders.map fun c => ⟨c.fixedShare.getD 0 / total, false⟩

/-- Whether somebody has to compete for the open part of the market, and nobody does. -/
def needsFallback (contenders : List (Contender α)) : Bool :=
  Quantity.shareTolerance < openMarket contenders && competingTotal contenders ≤ 0

/-- Checks every contender, and that the fixed shares together are no more than the market. -/
def checkContenders (contenders : List (Contender α)) : Except (AllocationError α) Unit := do
  contenders.forM Contender.check
  if fixedTotal contenders ≤ 1 + Quantity.shareTolerance then .ok ()
  else .error (.fixedSharesAboveOne (fixedTotal contenders))

/-- Shares out a market for whose open part nobody competes. -/
def allocateByFallback (contenders : List (Contender α)) :
    Except (AllocationError α) (Allocation α) :=
  if 0 < fixedTotal contenders then
    .ok ⟨scaledFixedShares contenders, some .scaledFixedShares⟩
  else if contenders.all fun c => c.fixedShare.isSome then .error .nobodyAvailable
  else (shareOpenMarket contenders (fun _ => none) Contender.equalWeight).map
    (⟨·, some .equalSplit⟩)

/-- Shares out a market between contenders who have been checked. -/
def allocateChecked (contenders : List (Contender α)) :
    Except (AllocationError α) (Allocation α) :=
  if needsFallback contenders then allocateByFallback contenders
  else (shareOpenMarket contenders Contender.freeWeight Contender.pricedWeight).map (⟨·, none⟩)

/-- Shares out a market between contenders. Nobody shares a market without contenders. -/
def allocate (contenders : List (Contender α)) : Except (AllocationError α) (Allocation α) :=
  if contenders.isEmpty then .ok ⟨[], none⟩
  else do
    checkContenders contenders
    allocateChecked contenders

end NestedLogit
