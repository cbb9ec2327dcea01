import NestedLogit.Decimal.Reader
import NestedLogit.Host
import NestedLogit.Quantity.Double
import NestedLogit.Table.Records
import NestedLogit.Text.Quoted

/-!
# Rows of a table

The first record of a table names its columns, and the others are rows. A decoder makes a value of a
row out of the columns that it knows by name; other columns do not count. Fields are checked in the
order in which they stand, and columns that are missing are noticed after that.
-/

namespace NestedLogit.Table

/-- Why the text of a field is not accepted. -/
inductive FieldError where
  /-- It is no number; the position of the field is part of the message. -/
  | number (text : String)
  /-- Something else; only the record is part of the message. -/
  | other (text : String)
  deriving DecidableEq, Repr

/-- Why a table cannot be read. -/
inductive TableError where
  /-- The file cannot be read. -/
  | unreadable
  /-- A record does not have a field for every column. -/
  | fieldCount (record count expected : Nat)
  /-- A field is no number. -/
  | field (record index : Nat) (text : String)
  /-- A record is not accepted. -/
  | record (record : Nat) (text : String)
  deriving DecidableEq, Repr

/-- The message for a table that cannot be read. -/
def TableError.message : TableError → String
  | .unreadable => "CSV file could not be read"
  | .fieldCount n count expected => s!"CSV record {n}: {count} fields instead of {expected}"
  | .field n index text => s!"CSV record {n}: field {index}: {text}"
  | .record n text => s!"CSV record {n}: {text}"

/-- Reads the text of one field. -/
abbrev FieldReader (β : Type) := String → Except FieldError β

namespace FieldReader

/-- Any text. -/
def text : FieldReader String :=
  .ok

/-- A name. -/
def id {kind : IdKind} : FieldReader (Id kind) :=
  fun s => .ok ⟨s⟩

/-- A year. -/
def year : FieldReader Nat :=
  fun s => (Decimal.readYear s).mapError fun e => .number e.message

/-- A number. -/
def number : FieldReader Float :=
  fun s => (Decimal.readFloat s).mapError fun e => .number e.message

/-- A number between zero and one. -/
def proportion : FieldReader Float := fun s => do
  let x ← number s
  if Quantity.isProportion x then .ok x else .error (.other "Value must be between 0 and 1")

/-- Nothing, or what a reader accepts. -/
def optional {β : Type} (read : FieldReader β) : FieldReader (Option β) :=
  fun s => if s.isEmpty then .ok none else (read s).map some

end FieldReader

/-- The fields of a row by the names of their columns. -/
abbrev Row := String → Option String

/-- How to make a value of a row. -/
structure Decoder (ρ : Type) where
  /-- The columns that are known, with a check of their fields. -/
  checks : List (String × FieldReader Unit)
  /-- The value of a row whose fields were checked. -/
  build : Row → Except FieldError ρ

namespace Decoder

variable {ρ σ : Type}

instance : Functor Decoder where
  map f d := ⟨d.checks, fun row => (d.build row).map f⟩

instance : Applicative Decoder where
  pure v := ⟨[], fun _ => .ok v⟩
  seq f d :=
    let d := d ()
    ⟨f.checks ++ d.checks, fun row => do return (← f.build row) (← d.build row)⟩

/-- A column that the table must have. -/
def column (name : String) (read : FieldReader ρ) : Decoder ρ where
  checks := [(name, fun s => (read s).map fun _ => ())]
  build row :=
    match row name with
    | some s => read s
    | none => .error (.other s!"missing field `{name}`")

/-- A column that the table may have; its fields may be empty. -/
def column? (name : String) (read : FieldReader ρ) : Decoder (Option ρ) where
  checks := [(name, fun s => (FieldReader.optional read s).map fun _ => ())]
  build row :=
    match row name with
    | some s => FieldReader.optional read s
    | none => .ok none

/-- Checks the fields of a row from left to right, given the names of the columns in front and the
position of the first field. -/
def checkFields (d : Decoder ρ) (record : Nat) :
    List String → Nat → List (String × String) → Except TableError Unit
  | _, _, [] => .ok ()
  | seen, index, (name, field) :: rest =>
    match d.checks.lookup name with
    | none => checkFields d record seen (index + 1) rest
    | some check =>
      if name ∈ seen then .error (.record record s!"duplicate field `{name}`")
      else match check field with
        | .ok () => checkFields d record (name :: seen) (index + 1) rest
        | .error (.number text) => .error (.field record index text)
        | .error (.other text) => .error (.record record text)

/-- The value of one record under the names of the columns. -/
def decodeRecord (d : Decoder ρ) (names : List String) (record : Nat) (fields : List String) :
    Except TableError ρ :=
  if fields.length ≠ names.length then
    .error (.fieldCount record fields.length names.length)
  else do
    let cells := names.zip fields
    checkFields d record [] 0 cells
    match d.build (cells.lookup ·) with
    | .ok row => .ok row
    | .error (.number text) | .error (.other text) => .error (.record record text)

/-- The values of the records behind the first one, with their numbers. -/
def decodeRecords (d : Decoder ρ) (names : List String) :
    Nat → List (List String) → Except TableError (List ρ)
  | _, [] => .ok []
  | record, fields :: rest => do
    let row ← d.decodeRecord names record fields
    return row :: (← decodeRecords d names (record + 1) rest)

/-- The rows of a text. -/
def decode (d : Decoder ρ) (text : String) : Except TableError (List ρ) :=
  match records text with
  | [] => .ok []
  | names :: rest => d.decodeRecords names 1 rest

/-- The rows of a file that has to be there. -/
def decodeFile (d : Decoder ρ) : Except AccessError String → Except TableError (List ρ)
  | .ok text => d.decode text
  | .error _ => .error .unreadable

/-- The rows of a file that may be absent. -/
def decodeOptionalFile (d : Decoder ρ) : Except AccessError String → Except TableError (List ρ)
  | .ok text => d.decode text
  | .error cause => if cause.isAbsence then .ok [] else .error .unreadable

end Decoder

end NestedLogit.Table
