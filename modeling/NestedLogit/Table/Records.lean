/-!
# Records of a table

A table is a text of records with fields. Fields are separated by commas and records by line ends;
empty lines do not count. A field in double quotes may hold commas and line ends, and holds a quote
where two stand. A quote within a field that does not begin with one stands for itself.
-/

namespace NestedLogit.Table

/-- Where in a text a reader is. -/
inductive Place where
  /-- At the beginning of a record. -/
  | recordStart
  /-- At the beginning of a field behind a comma. -/
  | fieldStart
  /-- In a field without quotes, or behind the quote that closes one. -/
  | plain
  /-- Between quotes. -/
  | quoted
  /-- Behind a quote between quotes, which closes the field unless a second one follows. -/
  | quoteSeen
  deriving DecidableEq, Repr

/-- A reader in the middle of a text; what it read is kept backwards. -/
structure Reader where
  place : Place
  field : List Char
  record : List String
  records : List (List String)

namespace Reader

/-- A reader at the beginning of a text. -/
def start : Reader :=
  ⟨.recordStart, [], [], []⟩

/-- Adds a character to the field. -/
def push (r : Reader) (place : Place) (c : Char) : Reader :=
  { r with place, field := c :: r.field }

/-- Closes the field. -/
def endField (r : Reader) : Reader :=
  { r with
    place := .fieldStart
    field := []
    record := String.ofList r.field.reverse :: r.record }

/-- Closes the field and the record. -/
def endRecord (r : Reader) : Reader :=
  let r := r.endField
  { r with place := .recordStart, record := [], records := r.record.reverse :: r.records }

/-- Reads a character that is not between quotes. -/
def readPlain (r : Reader) (c : Char) : Reader :=
  if c = ',' then r.endField
  else if c = '\n' ∨ c = '\r' then r.endRecord
  else r.push .plain c

/-- Reads a character. -/
def read (r : Reader) (c : Char) : Reader :=
  match r.place with
  | .recordStart =>
    if c = '\n' ∨ c = '\r' then r
    else if c = '"' then { r with place := .quoted } else r.readPlain c
  | .fieldStart => if c = '"' then { r with place := .quoted } else r.readPlain c
  | .plain => r.readPlain c
  | .quoted => if c = '"' then { r with place := .quoteSeen } else r.push .quoted c
  | .quoteSeen => if c = '"' then r.push .quoted c else r.readPlain c

/-- The records that were read, once the text has ended. -/
def finish (r : Reader) : List (List String) :=
  (if r.place = .recordStart then r else r.endRecord).records.reverse

end Reader

/-- Drops a byte-order mark in front of a text. -/
def dropMark : List Char → List Char
  | '\ufeff' :: rest => rest
  | s => s

/-- The records of a text. -/
def records (text : String) : List (List String) :=
  ((dropMark text.toList).foldl Reader.read Reader.start).finish

/-- A field as it is written: between quotes if it holds a comma, a quote or a line end. -/
def writeField (field : String) : String :=
  if field.toList.any fun c => c = ',' ∨ c = '"' ∨ c = '\n' ∨ c = '\r' then
    "\"" ++ String.join (field.toList.map fun c => if c = '"' then "\"\"" else c.toString) ++ "\""
  else field

/-- A record as it is written. A single field without text is put between quotes, so that its line
is not empty. -/
def writeRecord (record : List String) : String :=
  if record = [""] then "\"\"\n" else String.intercalate "," (record.map writeField) ++ "\n"

end NestedLogit.Table
