import NestedLogit.Quantity

/-!
# Contenders and their logit weights

A contender is one of the options between which a market is shared out. Its weight in the choice is
its share weight times its price raised to the logit exponent. A contender that costs nothing is
preferred to every priced one if its exponent is negative, so that no finite weight can stand for
it: such a contender is free, and only its share weight counts among the free ones.
-/

namespace NestedLogit

/-- One of the options that share a market. -/
structure Contender (α : Type) where
  /-- The bias towards the contender; zero takes it out of the choice. -/
  shareWeight : α
  /-- The price per unit of output. -/
  price : α
  /-- How strongly the share reacts to the price; a negative exponent prefers cheap contenders. -/
  logitExponent : α
  /-- The largest share the contender can take. -/
  capacityLimit : α
  /-- A share that is imposed from outside and takes no part in the choice. -/
  fixedShare : Option α

/-- The default logit exponent, minus three. -/
def defaultLogitExponent {α : Type} [Quantity α] : α :=
  0 - Quantity.whole 3

/-- The weight of a contender in the choice. -/
inductive LogitWeight (α : Type) where
  /-- The contender takes no part in the choice. -/
  | excluded
  /-- The contender costs nothing and comes before all priced ones; it has its share weight. -/
  | free (shareWeight : α)
  /-- The contender competes with a weight. -/
  | priced (weight : α)

variable {α : Type} [Quantity α]

/-- The weight of a share weight at a price. Nothing is left of a share weight that is not positive
or of a price that is not finite, and a weight beyond all bounds makes the contender free. -/
def logitWeight (shareWeight price logitExponent : α) : LogitWeight α :=
  if Quantity.isUndefined shareWeight || shareWeight ≤ 0 || !Quantity.isFinite price then .excluded
  else if price ≤ 0 then
    if logitExponent < 0 then .free shareWeight
    else if 0 < logitExponent then .excluded
    else .priced shareWeight
  else
    let weight := shareWeight * Quantity.pow price logitExponent
    if Quantity.isFinite weight then .priced weight else .free shareWeight

namespace Contender

/-- A contender without a capacity limit or a fixed share. -/
def unlimited (shareWeight price logitExponent : α) : Contender α :=
  ⟨shareWeight, price, logitExponent, 1, none⟩

/-- The weight of a contender. -/
def weight (c : Contender α) : LogitWeight α :=
  logitWeight c.shareWeight c.price c.logitExponent

/-- The weight among the free contenders, for a free contender without a fixed share. -/
def freeWeight (c : Contender α) : Option α :=
  if c.fixedShare.isSome then none
  else match c.weight with
    | .free w => some w
    | _ => none

/-- The weight among the priced contenders, for a priced contender of positive weight without a
fixed share. -/
def pricedWeight (c : Contender α) : Option α :=
  if c.fixedShare.isSome then none
  else match c.weight with
    | .priced w => if 0 < w then some w else none
    | _ => none

/-- The weight in an equal split: one for every contender without a fixed share. -/
def equalWeight (c : Contender α) : Option α :=
  if c.fixedShare.isSome then none else some 1

end Contender

end NestedLogit
