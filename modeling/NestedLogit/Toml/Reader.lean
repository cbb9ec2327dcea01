import NestedLogit.Decimal.Reader
import NestedLogit.Toml.Value

/-!
# Reading configuration documents

Turns the text of a document into its lines and these into one table. A text that is no document is
refused as a whole, without a reason.

## Design notes

Values can be nested, and a reader of values calls itself on a rest of the text. It takes a bound on
the depth of the calls; the length of the text is always enough.
-/

namespace NestedLogit.Toml

/-- Whether a character may not stand in a comment or a string. -/
def isForbidden (c : Char) : Bool :=
  (c.toNat < 0x20 && c != '\t') || c.toNat == 0x7f

/-- Skips spaces and tabs. -/
def skipSpace (s : List Char) : List Char :=
  s.dropWhile fun c => c == ' ' || c == '\t'

/-- Skips a comment, if there is one, up to the end of its line. -/
def skipComment : List Char → Option (List Char)
  | '#' :: rest =>
    let (comment, rest) := rest.span (· != '\n')
    -- a carriage return is allowed as part of the line end only
    let comment :=
      if comment.getLast? = some '\r' && !rest.isEmpty then comment.dropLast else comment
    if comment.any isForbidden then none else some rest
  | s => some s

/-- Skips a line end, if there is one. -/
def skipLineEnd? : List Char → Option (List Char)
  | '\n' :: rest => some rest
  | '\r' :: '\n' :: rest => some rest
  | _ => none

/-- Skips spaces, comments and line ends. -/
def skipLines : Nat → List Char → Option (List Char)
  | 0, s => some s
  | fuel + 1, s => do
    let s ← skipComment (skipSpace s)
    match skipLineEnd? s with
    | some rest => skipLines fuel rest
    | none => some s

/-- Skips what may follow at the end of a line. -/
def endLine (s : List Char) : Option (List Char) := do
  match ← skipComment (skipSpace s) with
  | [] => some []
  | s => skipLineEnd? s

/-- The value of a text of hexadecimal digits. -/
def hexadecimal? (digits : List Char) : Option Nat :=
  if digits.isEmpty then none
  else digits.foldlM (fun n c => (Decimal.digitValue? 16 c).map (16 * n + ·)) 0

/-- The character with a given code point, unless that is a surrogate or too large. -/
def character? (n : Nat) : Option Char :=
  if n.isValidChar then some (Char.ofNat n) else none

/-- The character that an escape behind a backslash stands for. -/
def readEscape : List Char → Option (Char × List Char)
  | 'b' :: rest => some ('\x08', rest)
  | 't' :: rest => some ('\t', rest)
  | 'n' :: rest => some ('\n', rest)
  | 'f' :: rest => some ('\x0c', rest)
  | 'r' :: rest => some ('\r', rest)
  | '"' :: rest => some ('"', rest)
  | '\\' :: rest => some ('\\', rest)
  | 'u' :: rest => readCodePoint 4 rest
  | 'U' :: rest => readCodePoint 8 rest
  | _ => none
where
  /-- The character of a given number of hexadecimal digits. -/
  readCodePoint (count : Nat) (s : List Char) : Option (Char × List Char) := do
    let digits := s.take count
    if digits.length ≠ count then none
    let c ← character? (← hexadecimal? digits)
    return (c, s.drop count)

/-- The rest of a string of one line that ends with a quote, with escapes if it is a double one. -/
def readLineString (quote : Char) : Nat → List Char → List Char → Option (String × List Char)
  | 0, _, _ => none
  | _, _, [] => none
  | fuel + 1, acc, c :: rest =>
    if c = quote then some (String.ofList acc.reverse, rest)
    else if c = '\\' ∧ quote = '"' then do
      let (d, rest) ← readEscape rest
      readLineString quote fuel (d :: acc) rest
    else if isForbidden c then none
    else readLineString quote fuel (c :: acc) rest

/-- Skips the line end and the blank space behind a backslash at the end of a line. -/
def skipFolded (s : List Char) : Option (List Char) := do
  let rest ← skipLineEnd? (skipSpace s)
  return rest.dropWhile fun c => c == ' ' || c == '\t' || c == '\n' || c == '\r'

/-- The rest of a string of several lines that ends with three quotes, in front of which up to two
more may stand. -/
def readBlockString (quote : Char) : Nat → List Char → List Char → Option (String × List Char)
  | 0, _, _ => none
  | _, _, [] => none
  | fuel + 1, acc, c :: rest =>
    if c = quote then
      let quotes := (c :: rest).takeWhile (· == quote)
      let after := (c :: rest).dropWhile (· == quote)
      if quotes.length < 3 then readBlockString quote fuel (quotes ++ acc) after
      else if 5 < quotes.length then none
      else some (String.ofList (List.replicate (quotes.length - 3) quote ++ acc).reverse, after)
    else if c = '\\' ∧ quote = '"' then
      match skipFolded rest with
      | some rest => readBlockString quote fuel acc rest
      | none => do
        let (d, rest) ← readEscape rest
        readBlockString quote fuel (d :: acc) rest
    else if c = '\r' ∧ rest.head? = some '\n' then readBlockString quote fuel (c :: acc) rest
    else if isForbidden c ∧ c ≠ '\n' then none
    else readBlockString quote fuel (c :: acc) rest

/-- A line end directly behind the opening quotes does not count. -/
def dropFirstLineEnd (s : List Char) : List Char :=
  (skipLineEnd? s).getD s

/-- A string of either kind. -/
def readString (s : List Char) : Option (String × List Char) :=
  match s with
  | '"' :: '"' :: '"' :: rest => readBlockString '"' (s.length + 1) [] (dropFirstLineEnd rest)
  | '\'' :: '\'' :: '\'' :: rest => readBlockString '\'' (s.length + 1) [] (dropFirstLineEnd rest)
  | '"' :: rest => readLineString '"' (s.length + 1) [] rest
  | '\'' :: rest => readLineString '\'' (s.length + 1) [] rest
  | _ => none

/-- Whether a character may stand in a key without quotes. -/
def isKeyChar (c : Char) : Bool :=
  c.isAlphanum || c == '_' || c == '-'

/-- One part of a key. -/
def readKeyPart (s : List Char) : Option (String × List Char) :=
  match s with
  | '"' :: rest => readLineString '"' (s.length + 1) [] rest
  | '\'' :: rest => readLineString '\'' (s.length + 1) [] rest
  | s =>
    let (key, rest) := s.span isKeyChar
    if key.isEmpty then none else some (String.ofList key, rest)

/-- A key: parts with points between them. -/
def readKey : Nat → List Char → Option (List String × List Char)
  | 0, _ => none
  | fuel + 1, s => do
    let (part, rest) ← readKeyPart (skipSpace s)
    match skipSpace rest with
    | '.' :: rest =>
      let (parts, rest) ← readKey fuel rest
      return (part :: parts, rest)
    | rest => return ([part], rest)

/-- Digits of a base with underscores between them, without the underscores. -/
def plainDigits? (base : Nat) (s : List Char) : Option (List Char) :=
  let isDigit (c : Char) : Bool := (Decimal.digitValue? base c).isSome
  let rec go : List Char → Option (List Char)
    | [] => none
    | [c] => if isDigit c then some [c] else none
    | c :: '_' :: rest => if isDigit c then (go rest).map (c :: ·) else none
    | c :: rest => if isDigit c then (go rest).map (c :: ·) else none
  go s

/-- The whole number of a text of digits of a base. -/
def ofDigits (base : Nat) (digits : List Char) : Nat :=
  digits.foldl (fun n c => base * n + (Decimal.digitValue? base c).getD 0) 0

/-- Whole numbers are those of 128 bits, with a sign or without. -/
def integer? (n : Int) : Option Value :=
  if -Int.pow 2 127 ≤ n ∧ n < Int.pow 2 128 then some (.integer n) else none

/-- Whether decimal digits have no zero in front that does not count. -/
def isCanonical (digits : List Char) : Bool :=
  digits.head? != some '0' || digits.length == 1

/-- A whole number in base ten, with an optional sign. -/
def decimalInteger? (s : List Char) : Option Value := do
  let (negative, rest) := Decimal.spanSign s
  let digits ← plainDigits? 10 rest
  if !isCanonical digits then none
  let n : Int := ofDigits 10 digits
  integer? (if negative then -n else n)

/-- A whole number in a base that its first two characters name. -/
def basedInteger? : List Char → Option Value
  | '0' :: 'x' :: rest => do integer? (ofDigits 16 (← plainDigits? 16 rest))
  | '0' :: 'o' :: rest => do integer? (ofDigits 8 (← plainDigits? 8 rest))
  | '0' :: 'b' :: rest => do integer? (ofDigits 2 (← plainDigits? 2 rest))
  | _ => none

/-- A number with a point or an exponent, or a word for infinity or an undefined number. -/
def float? (s : List Char) : Option Value := do
  let (negative, rest) := Decimal.spanSign s
  let x ←
    if rest = ['i', 'n', 'f'] then some (1.0 / 0.0)
    else if rest = ['n', 'a', 'n'] then some (0.0 / 0.0)
    else do
      let (whole, rest) := rest.span fun c => c.isDigit || c == '_'
      let whole ← plainDigits? 10 whole
      if !isCanonical whole then none
      let (fraction, rest) ← match rest with
        | '.' :: rest =>
          let (fraction, rest) := rest.span fun c => c.isDigit || c == '_'
          do some ((← plainDigits? 10 fraction), rest)
        | rest => some ([], rest)
      let (letter, rest) := rest.splitAt 1
      let (negative, digits) := Decimal.spanSign rest
      let exponent : Int ←
        if letter.isEmpty then some 0
        else if letter = ['e'] ∨ letter = ['E'] then do
          some (Decimal.ofDecimalDigits (← plainDigits? 10 digits) : Int)
        else none
      let exponent := if negative then -exponent else exponent
      let x := Decimal.ofDecimal (Decimal.ofDecimalDigits (whole ++ fraction))
        (exponent - fraction.length)
      if x.isInf then none else some x
  return .float (if negative then -x else x)

/-- Whether a text has digits where a pattern has zeros and the same characters elsewhere. -/
def matchesPattern (pattern : String) (s : List Char) : Bool :=
  let cells := pattern.toList.zip s
  pattern.length == s.length && cells.all fun x => if x.1 = '0' then x.2.isDigit else x.1 = x.2

/-- The number at a place of a text. -/
def numberAt (s : List Char) (start count : Nat) : Nat :=
  Decimal.ofDecimalDigits ((s.drop start).take count)

/-- The number of days of a month. -/
def daysOfMonth (year month : Nat) : Nat :=
  if month = 2 then
    if (year % 4 = 0 ∧ year % 100 ≠ 0) ∨ year % 400 = 0 then 29 else 28
  else if month = 4 ∨ month = 6 ∨ month = 9 ∨ month = 11 then 30 else 31

/-- Whether a text is a date. -/
def isDate (s : List Char) : Bool :=
  let month := numberAt s 5 2
  let day := numberAt s 8 2
  matchesPattern "0000-00-00" s && 1 ≤ month && month ≤ 12 && 1 ≤ day
    && day ≤ daysOfMonth (numberAt s 0 4) month

/-- Whether a text is a time of the day, with an optional fraction of a second. -/
def isTime (s : List Char) : Bool :=
  let fraction := s.drop 8
  matchesPattern "00:00:00" (s.take 8) && numberAt s 0 2 < 24 && numberAt s 3 2 < 60
    && numberAt s 6 2 ≤ 60
    && (fraction.isEmpty
      || fraction.head? == some '.' && 1 < fraction.length && (fraction.drop 1).all Char.isDigit)

/-- Whether a text is a distance from universal time. -/
def isOffset (s : List Char) : Bool :=
  s == ['Z'] || s == ['z']
    || (matchesPattern "+00:00" s || matchesPattern "-00:00" s)
      && numberAt s 1 2 < 24 && numberAt s 4 2 < 60

/-- A date, a time, or both, with an optional distance from universal time. -/
def moment? (s : List Char) : Option Value :=
  let date := s.take 10
  let rest := s.drop 10
  let (time, offset) := (rest.drop 1).span fun c => c.isDigit || c == ':' || c == '.'
  let separated := rest.head?.any fun c => c == 'T' || c == 't' || c == ' '
  if isTime s || isDate date && (rest.isEmpty
      || separated && isTime time && (offset.isEmpty || isOffset offset)) then
    some (.moment (String.ofList s))
  else none

/-- A value that is a word without quotes. A date and a time may have a space between them. -/
def readWord (s : List Char) : Option (Value × List Char) :=
  let isWordChar (c : Char) : Bool :=
    c.isAlphanum || c == '+' || c == '-' || c == '_' || c == '.' || c == ':'
  let (word, rest) := s.span isWordChar
  let (word, rest) :=
    match rest with
    | ' ' :: next :: more =>
      if isDate word && next.isDigit then
        let (time, rest) := (next :: more).span isWordChar
        (word ++ ' ' :: time, rest)
      else (word, rest)
    | _ => (word, rest)
  let value :=
    if word = ['t', 'r', 'u', 'e'] then some (.boolean true)
    else if word = ['f', 'a', 'l', 's', 'e'] then some (.boolean false)
    else (((decimalInteger? word).orElse fun _ => basedInteger? word).orElse
      fun _ => float? word).orElse fun _ => moment? word
  value.map (·, rest)

/-- The value of a field of an inline table. -/
def fieldsValue (fields : Fields) : Value :=
  .inlineTable (fields.filterMap fun e =>
    match e.2 with
    | .value v => some (e.1, v)
    | _ => none)

mutual

/-- A value. -/
def readValue : Nat → List Char → Option (Value × List Char)
  | 0, _ => none
  | fuel + 1, s =>
    match s with
    | '[' :: rest => do
      let (items, rest) ← readItems fuel rest
      return (.array items, rest)
    | '\x7b' :: rest =>
      match skipSpace rest with
      | '\x7d' :: rest => some (.inlineTable [], rest)
      | rest => do
        let (assignments, rest) ← readAssignments fuel rest
        return (fieldsValue (← ofAssignments assignments), rest)
    | '"' :: _ | '\'' :: _ => (readString s).map fun x => (.text x.1, x.2)
    | s => readWord s

/-- The items of an array up to its end. -/
def readItems : Nat → List Char → Option (List Value × List Char)
  | 0, _ => none
  | fuel + 1, s => do
    match ← skipLines (s.length + 1) s with
    | ']' :: rest => some ([], rest)
    | s =>
      let (item, rest) ← readValue fuel s
      match ← skipLines (rest.length + 1) rest with
      | ',' :: rest =>
        let (items, rest) ← readItems fuel rest
        return (item :: items, rest)
      | ']' :: rest => some ([item], rest)
      | _ => none

/-- The assignments of an inline table up to its end. -/
def readAssignments : Nat → List Char → Option (List (List String × Value) × List Char)
  | 0, _ => none
  | fuel + 1, s => do
    let (key, rest) ← readKey (s.length + 1) s
    match skipSpace rest with
    | '=' :: rest =>
      let (value, rest) ← readValue fuel (skipSpace rest)
      match skipSpace rest with
      | ',' :: rest =>
        let (assignments, rest) ← readAssignments fuel rest
        return ((key, value) :: assignments, rest)
      | '\x7d' :: rest => some ([(key, value)], rest)
      | _ => none
    | _ => none

end

/-- A line: a header or an assignment. -/
def readLine (s : List Char) : Option (Line × List Char) :=
  match s with
  | '[' :: '[' :: rest => do
    let (path, rest) ← readKey (s.length + 1) rest
    match rest with
    | ']' :: ']' :: rest => some (.nextTable path, rest)
    | _ => none
  | '[' :: rest => do
    let (path, rest) ← readKey (s.length + 1) rest
    match rest with
    | ']' :: rest => some (.table path, rest)
    | _ => none
  | s => do
    let (path, rest) ← readKey (s.length + 1) s
    match rest with
    | '=' :: rest =>
      let (value, rest) ← readValue (s.length + 1) (skipSpace rest)
      return (.assignment path value, rest)
    | _ => none

/-- The lines of a document. -/
def readLines : Nat → List Char → Option (List Line)
  | 0, _ => none
  | fuel + 1, s => do
    match ← skipLines (s.length + 1) s with
    | [] => some []
    | s =>
      let (line, rest) ← readLine s
      return line :: (← readLines fuel (← endLine rest))

/-- Drops a byte-order mark in front of a document. -/
def dropMark : List Char → List Char
  | '\ufeff' :: rest => rest
  | s => s

/-- The table of a document. -/
def read? (text : String) : Option Fields := do
  let s := dropMark text.toList
  ofLines (← readLines (s.length + 1) s)

end NestedLogit.Toml
