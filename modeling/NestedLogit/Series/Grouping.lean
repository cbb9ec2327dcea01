import NestedLogit.OrderedMap
import NestedLogit.Series.Sparse
import NestedLogit.Text.Quoted

/-!
# Grouping of rows

Rows of input data belong to an entity and a period. They are grouped by entity, in the order in
which the entities first appear; no entity may have two rows for one period.
-/

namespace NestedLogit

/-- A row with the entity and the period it belongs to. -/
structure KeyedRow (κ ρ : Type) where
  key : κ
  period : Nat
  row : ρ

/-- The rows of each entity by period. -/
abbrev Grouping (κ ρ : Type) := OrderedMap κ (Sparse ρ)

/-- A key that is given a second time. -/
structure DuplicateKey (κ : Type) where
  key : κ

/-- The message for a key that is given a second time. -/
def DuplicateKey.message {κ : Type} [Spell κ] (e : DuplicateKey κ) : String :=
  s!"Duplicate entry for {spell e.key}"

/-- The message for an entity that has two rows for one period. -/
def DuplicateKey.periodMessage {κ : Type} [Spell κ] (e : DuplicateKey κ) : String :=
  s!"Duplicate entry for {spell e.key} in the same year"

variable {κ ρ : Type} [DecidableEq κ]

namespace Grouping

/-- Whether an entity has a row for a period. -/
def hasRow (g : Grouping κ ρ) (key : κ) (period : Nat) : Bool :=
  (g.get? key).any (·.contains period)

/-- Adds rows, none of which may be for an entity and a period that have one. -/
def addRows (g : Grouping κ ρ) : List (KeyedRow κ ρ) → Except (DuplicateKey κ) (Grouping κ ρ)
  | [] => .ok g
  | r :: rest =>
    if hasRow g r.key r.period then .error ⟨r.key⟩
    else addRows (g.upsert r.key .empty (·.insert r.period r.row)) rest

/-- Groups rows by entity. -/
def ofRows (rows : List (KeyedRow κ ρ)) : Except (DuplicateKey κ) (Grouping κ ρ) :=
  addRows .empty rows

end Grouping

/-- Puts a value under a key that must not be there. -/
def OrderedMap.insertNew (m : OrderedMap κ ρ) (key : κ) (value : ρ) :
    Except (DuplicateKey κ) (OrderedMap κ ρ) :=
  match m.insertNew? key value with
  | some m => .ok m
  | none => .error ⟨key⟩

end NestedLogit
