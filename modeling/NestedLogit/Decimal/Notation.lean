import NestedLogit.Decimal.Shortest

/-!
# Written numbers

The ways in which the program writes a double: in messages with all its digits and never an
exponent, in output tables with an exponent where the number would be long, and in reports of
calculated amounts with ten significant digits and always an exponent.
-/

namespace NestedLogit.Decimal

/-- A text of zeros. -/
def zeros (count : Int) : String :=
  String.ofList (List.replicate count.toNat '0')

/-- Puts a sign in front of what is written for the absolute value. -/
def signed (negative : Bool) (text : String) : String :=
  if negative then "-" ++ text else text

/-- Digits with a point in their place, without an exponent. -/
def positional (d : Digits) : String :=
  let text := toString d.digits
  let point : Int := text.length + d.exponent
  if 0 ≤ d.exponent then text ++ zeros d.exponent
  else if 0 < point then
    String.ofList (text.toList.take point.toNat) ++ "."
      ++ String.ofList (text.toList.drop point.toNat)
  else "0." ++ zeros (-point) ++ text

/-- Digits with one in front of the point and an exponent. A point that nothing follows is left
out. -/
def withExponent (d : Digits) : String :=
  let text := (toString d.digits).toList
  let exponent : Int := (text.length : Int) - 1 + d.exponent
  let rest := text.drop 1
  let fraction := if rest.isEmpty then "" else "." ++ String.ofList rest
  String.ofList (text.take 1) ++ fraction ++ "e" ++ toString exponent

/-- A number in a message: the fewest digits that read back, never an exponent, no point in a whole
number. -/
def plain (x : Float) : String :=
  match Double.ofFloat x with
  | .undefined => "NaN"
  | .infinite negative => signed negative "inf"
  | .finite negative m e => signed negative (if m = 0 then "0" else positional (shortest .up m e))

/-- A calculated amount in a report: ten significant digits and an exponent. Zero has no sign. -/
def scientific (x : Float) : String :=
  match Double.ofFloat x with
  | .undefined => "NaN"
  | .infinite negative => signed negative "inf"
  | .finite negative m e =>
    if m = 0 then "0.000000000e0" else signed negative (withExponent (significant 10 m e))

/-- A number in an output table: the fewest digits that read back, with at least one after the
point, and with an exponent from `1e16` on and below `1e-5`. -/
def tabular (x : Float) : String :=
  match Double.ofFloat x with
  | .undefined => "NaN"
  | .infinite negative => signed negative "inf"
  | .finite negative m e =>
    let d := shortest .even m e
    let point : Int := (digitCount d.digits : Int) + d.exponent
    signed negative <|
      if m = 0 then "0.0"
      else if 16 < point || point < -4 then withExponent d
      else if 0 ≤ d.exponent then positional d ++ ".0"
      else positional d

end NestedLogit.Decimal
