import NestedLogit.Decimal.Binary

/-!
# Reading numbers

Decimal numbers with an optional sign, point and exponent, the words for infinity and for an
undefined number, and whole numbers below a bound.
-/

namespace NestedLogit.Decimal

/-- Why a text is no number. -/
inductive FloatError where
  | empty
  | invalid
  deriving DecidableEq, Repr

/-- The message for a text that is no number. -/
def FloatError.message : FloatError → String
  | .empty => "cannot parse float from empty string"
  | .invalid => "invalid float literal"

/-- Why a text is no whole number. -/
inductive NaturalError where
  | empty
  | invalidDigit
  | tooLarge
  deriving DecidableEq, Repr

/-- The message for a text that is no whole number. -/
def NaturalError.message : NaturalError → String
  | .empty => "cannot parse integer from empty string"
  | .invalidDigit => "invalid digit found in string"
  | .tooLarge => "number too large to fit in target type"

/-- The value of a digit in a base up to sixteen. -/
def digitValue? (base : Nat) (c : Char) : Option Nat :=
  let value :=
    if '0' ≤ c ∧ c ≤ '9' then some (c.toNat - '0'.toNat)
    else if 'a' ≤ c ∧ c ≤ 'f' then some (c.toNat - 'a'.toNat + 10)
    else if 'A' ≤ c ∧ c ≤ 'F' then some (c.toNat - 'A'.toNat + 10)
    else none
  value.filter (· < base)

/-- The whole number of a text of decimal digits. -/
def ofDecimalDigits (digits : List Char) : Nat :=
  digits.foldl (fun n c => 10 * n + (c.toNat - '0'.toNat)) 0

/-- Splits a text after its leading decimal digits. -/
def spanDigits (s : List Char) : List Char × List Char :=
  s.span Char.isDigit

/-- Splits a text after a leading sign; tells whether the sign is a minus. -/
def spanSign : List Char → Bool × List Char
  | '-' :: rest => (true, rest)
  | '+' :: rest => (false, rest)
  | s => (false, s)

/-- The exponent that a text consists of: nothing, or the letter `e`, an optional sign and
digits. -/
def exponent? : List Char → Option Int
  | [] => some 0
  | c :: rest =>
    if c = 'e' ∨ c = 'E' then
      let (negative, rest) := spanSign rest
      let (digits, rest) := spanDigits rest
      if digits.isEmpty ∨ !rest.isEmpty then none
      else some (if negative then -(ofDecimalDigits digits : Int) else ofDecimalDigits digits)
    else none

/-- The double nearest to `mantissa * 10 ^ exponent`. Powers of ten far beyond the range of doubles
are not written out. -/
def ofDecimal (mantissa : Nat) (exponent : Int) : Float :=
  let size : Int := (Nat.toDigits 10 mantissa).length + exponent
  if mantissa = 0 ∨ size < -400 then 0.0
  else if 400 < size then 1.0 / 0.0
  else ((Fraction.mk mantissa 1).scale 10 exponent).toFloat

/-- Reads a decimal number without a sign: digits with a point among or beside them, and an optional
exponent. -/
def readUnsigned? (s : List Char) : Option Float := do
  let (whole, rest) := spanDigits s
  let (fraction, rest) := match rest with
    | '.' :: rest => spanDigits rest
    | rest => ([], rest)
  if whole.isEmpty && fraction.isEmpty then none
  let exponent ← exponent? rest
  some (ofDecimal (ofDecimalDigits (whole ++ fraction)) (exponent - fraction.length))

/-- The words for infinity and for an undefined number, in any case. -/
def readWord? (s : List Char) : Option Float :=
  let word := String.ofList (s.map Char.toLower)
  if word = "inf" ∨ word = "infinity" then some (1.0 / 0.0)
  else if word = "nan" then some (0.0 / 0.0)
  else none

/-- Reads a number. -/
def readFloat (s : String) : Except FloatError Float :=
  if s.isEmpty then .error .empty
  else
    let (negative, rest) := spanSign s.toList
    match (readUnsigned? rest).orElse fun _ => readWord? rest with
    | some x => .ok (if negative then -x else x)
    | none => .error .invalid

/-- Reads the digits of a whole number below a bound, going on from the value of those in front. -/
def readDigits (base bound : Nat) : Nat → List Char → Except NaturalError Nat
  | value, [] => .ok value
  | value, c :: rest =>
    match digitValue? base c with
    | none => .error .invalidDigit
    | some d =>
      if bound ≤ base * value + d then .error .tooLarge
      else readDigits base bound (base * value + d) rest

/-- Reads a whole number below a bound, with an optional plus in front. -/
def readNatural (base bound : Nat) (s : List Char) : Except NaturalError Nat :=
  match s with
  | [] => .error .empty
  | '+' :: rest => if rest.isEmpty then .error .invalidDigit else readDigits base bound 0 rest
  | s => readDigits base bound 0 s

/-- Reads a year: a whole number below `2 ^ 32`, in base sixteen after `0x`. -/
def readYear (s : String) : Except NaturalError Nat :=
  match s.toList with
  | '0' :: 'x' :: rest => readNatural 16 (Nat.pow 2 32) rest
  | s => readNatural 10 (Nat.pow 2 32) s

end NestedLogit.Decimal
