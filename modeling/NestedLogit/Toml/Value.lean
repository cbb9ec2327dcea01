/-!
# Configuration documents

The values that a configuration document holds, and how its lines add up to one table: a line gives
a key a value in the current table, and a header makes another table the current one. Nothing can be
given twice, and a table that is complete cannot be added to.
-/

namespace NestedLogit.Toml

/-- A value of a document. A date or a time is kept as its text. -/
inductive Value where
  | text (s : String)
  | integer (n : Int)
  | float (x : Float)
  | boolean (b : Bool)
  | moment (s : String)
  | array (items : List Value)
  | inlineTable (fields : List (String × Value))
  deriving Inhabited

/-- How a table came about, which decides what can be added to it. -/
inductive Origin where
  /-- By a header that names a table within it. -/
  | implied
  /-- By a header that names it. -/
  | header
  /-- By a key with points. -/
  | dotted
  deriving DecidableEq, Repr

/-- What a key stands for in a document. -/
inductive Node where
  | value (v : Value)
  | table (origin : Origin) (fields : List (String × Node))
  /-- The tables of an array of tables, the last one first. -/
  | tables (items : List (List (String × Node)))
  deriving Inhabited

/-- The contents of a table. -/
abbrev Fields := List (String × Node)

/-- Replaces what a key stands for, or adds the key at the end. -/
def put (key : String) (node : Node) : Fields → Fields
  | [] => [(key, node)]
  | (k, v) :: rest => if k = key then (k, node) :: rest else (k, v) :: put key node rest

/-- Changes the table at the end of a path of headers; tables on the way come about if need be. -/
def within (f : Fields → Option Fields) : List String → Fields → Option Fields
  | [], fields => f fields
  | key :: path, fields =>
    match fields.lookup key with
    | none => do
      let inner ← within f path []
      return put key (.table .implied inner) fields
    | some (.table origin inner) => do
      let inner ← within f path inner
      return put key (.table origin inner) fields
    | some (.tables (last :: others)) => do
      let last ← within f path last
      return put key (.tables (last :: others)) fields
    | some _ => none

/-- Gives a value to a key with points in a table. The tables that the points lead through must have
come about without a header of their own. -/
def assign (value : Value) : List String → Fields → Option Fields
  | [], _ => none
  | [key], fields =>
    if (fields.lookup key).isSome then none else some (put key (.value value) fields)
  | key :: path, fields =>
    match fields.lookup key with
    | none => do
      let inner ← assign value path []
      return put key (.table .dotted inner) fields
    | some (.table origin inner) =>
      if origin = .header then none
      else do
        let inner ← assign value path inner
        return put key (.table origin inner) fields
    | some _ => none

/-- Opens a table by its header. It may have come about by a header within it, but not otherwise. -/
def openTable (key : String) (fields : Fields) : Option Fields :=
  match fields.lookup key with
  | none => some (put key (.table .header []) fields)
  | some (.table .implied inner) => some (put key (.table .header inner) fields)
  | some _ => none

/-- Opens one more table of an array of tables. -/
def openNext (key : String) (fields : Fields) : Option Fields :=
  match fields.lookup key with
  | none => some (put key (.tables [[]]) fields)
  | some (.tables items) => some (put key (.tables ([] :: items)) fields)
  | some _ => none

/-- A line of a document. -/
inductive Line where
  /-- The header of a table. -/
  | table (path : List String)
  /-- The header of the next table of an array. -/
  | nextTable (path : List String)
  /-- A key and its value. -/
  | assignment (path : List String) (value : Value)

/-- A document in the making: everything so far, and the path of the current table. -/
structure Draft where
  root : Fields
  current : List String

/-- Opens a table at the end of a path. -/
def Draft.enter (d : Draft) (path : List String) (opening : String → Fields → Option Fields) :
    Option Draft := do
  let key ← path.getLast?
  let root ← within (opening key) path.dropLast d.root
  return ⟨root, path⟩

/-- Adds a line. -/
def Draft.add (d : Draft) : Line → Option Draft
  | .table path => d.enter path openTable
  | .nextTable path => d.enter path openNext
  | .assignment path value => do
    let root ← within (assign value path) d.current d.root
    return { d with root }

/-- The table that lines add up to. -/
def ofLines (lines : List Line) : Option Fields :=
  (lines.foldlM Draft.add ⟨[], []⟩).map Draft.root

/-- Fields of an inline table added up. -/
def ofAssignments (assignments : List (List String × Value)) : Option Fields :=
  assignments.foldlM (fun fields a => assign a.2 a.1 fields) []

/-! ## Reading values out of a document -/

variable {β : Type}

/-- What a key of a table holds, if there is such a key. Without a result the value of the key is
not accepted. -/
def field? (fields : Fields) (key : String) (read : Value → Option β) : Option (Option β) :=
  match fields.lookup key with
  | none => some none
  | some (.value v) => (read v).map some
  | some _ => none

namespace Value

/-- A text. -/
def text? : Value → Option String
  | .text s => some s
  | _ => none

/-- A truth value. -/
def boolean? : Value → Option Bool
  | .boolean b => some b
  | _ => none

/-- A whole number below a bound. -/
def natural? (bound : Nat) : Value → Option Nat
  | .integer n => if 0 ≤ n ∧ n < bound then some n.toNat else none
  | _ => none

/-- A number. Whole numbers are accepted up to 64 bits. -/
def number? : Value → Option Float
  | .float x => some x
  | .integer n => if -Int.pow 2 63 ≤ n ∧ n < Int.pow 2 64 then some (Float.ofInt n) else none
  | _ => none

/-- A list of values of one kind. -/
def list? (read : Value → Option β) : Value → Option (List β)
  | .array items => items.mapM read
  | _ => none

end Value

end NestedLogit.Toml
