import NestedLogit.Model.RowError

/-!
# Placement of rows

What the tables have in common: a row that applies to several regions stands for one entity in each
of them, no entity may be given twice, and rows with values are grouped by the entities they are
for.
-/

namespace NestedLogit

variable {α ε κ μ ν ρ σ : Type} {n : Nat}

/-- The regions that a row applies to, in order and each once. -/
def rowRegions (regions : List RegionId) (row text : String) :
    Except (RowError α) (List RegionId) :=
  (parseRowRegions text regions).mapError (.rowRegions row)

/-- The period of a row's year. -/
def rowPeriod (c : Calendar n) (year : Nat) : Except (RowError α) (Fin n) :=
  (c.periodForYear year).mapError .notAModelYear

/-- Whether a value is finite and not negative. -/
def isAmount [Quantity α] (x : α) : Bool :=
  Quantity.isFinite x && 0 ≤ x

/-- Refuses a parameter that is given and is negative or not finite. -/
def checkAmount [Quantity α] (parameter : String) (value : Option α) :
    Except ParameterError Unit :=
  if value.all isAmount then .ok () else .error (.negative parameter)

/-- Refuses a logit exponent that is given and is positive or not finite. -/
def checkExponent [Quantity α] (value : Option α) : Except ParameterError Unit :=
  if value.all fun x => Quantity.isFinite x && x ≤ 0 then .ok () else .error .positiveExponent

namespace OrderedMap

variable [DecidableEq κ]

/-- Puts a new entry under each of some keys. -/
def insertEach (entry : κ → Except ε ν) (duplicate : DuplicateKey κ → ε) (m : OrderedMap κ ν) :
    List κ → Except ε (OrderedMap κ ν)
  | [] => .ok m
  | key :: rest => do
    let value ← entry key
    let m ← (m.insertNew key value).mapError duplicate
    insertEach entry duplicate m rest

/-- Puts the entries of rows under the keys that each row stands for. -/
def insertRows (keys : ρ → Except ε (List κ)) (entry : ρ → κ → Except ε ν)
    (duplicate : DuplicateKey κ → ε) (m : OrderedMap κ ν) :
    List ρ → Except ε (OrderedMap κ ν)
  | [] => .ok m
  | row :: rest => do
    let keys' ← keys row
    let m ← m.insertEach (entry row) duplicate keys'
    insertRows keys entry duplicate m rest

/-- Changes the values under the keys that updates are given for. -/
def update (m : OrderedMap κ ν) (f : ν → μ → ν) (updates : List (κ × μ)) : OrderedMap κ ν :=
  m.mapValues fun key value =>
    match updates.lookup key with
    | some u => f value u
    | none => value

end OrderedMap

/-- Groups rows by the keys that each of them stands for, and makes something of every group. -/
def groupRows [DecidableEq κ] (place : ρ → Except ε (List (KeyedRow κ σ)))
    (duplicate : DuplicateKey κ → ε) (make : κ → Sparse σ → Except ε μ) (rows : List ρ) :
    Except ε (List (κ × μ)) := do
  let placed ← rows.mapM place
  let groups ← (Grouping.ofRows placed.flatten).mapError duplicate
  groups.entries.mapM fun e => do return (e.1, ← make e.1 e.2)

end NestedLogit
