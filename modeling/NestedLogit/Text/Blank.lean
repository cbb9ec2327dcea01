/-!
# Blank space

The characters with the Unicode property `White_Space`, cutting a text at a separator, and removing
blank space from the ends of a text.
-/

namespace NestedLogit.Text

/-- Whether a character is white space: the ASCII control characters from tab to carriage return,
the next-line character, and the spaces and the line and paragraph separators of any script. -/
def isBlank (c : Char) : Bool :=
  let n := c.toNat
  (9 ≤ n && n ≤ 13) || n == 0x20 || n == 0x85 || n == 0xA0 || n == 0x1680
    || (0x2000 ≤ n && n ≤ 0x200A) || n == 0x2028 || n == 0x2029 || n == 0x202F || n == 0x205F
    || n == 0x3000

/-- Removes blank space from both ends. -/
def trimChars (s : List Char) : List Char :=
  ((s.dropWhile isBlank).reverse.dropWhile isBlank).reverse

/-- Removes blank space from both ends. -/
def trim (s : String) : String :=
  String.ofList (trimChars s.toList)

/-- The parts of a text between the places where a separator stands; there is always at least one
part. -/
def cut (separator : Char) : List Char → List (List Char)
  | [] => [[]]
  | c :: rest =>
    if c = separator then [] :: cut separator rest
    else match cut separator rest with
      | part :: parts => (c :: part) :: parts
      | [] => [[c]]

/-- Whether two texts are the same up to the case of ASCII letters. -/
def sameIgnoringCase (a b : String) : Bool :=
  a.toList.map Char.toLower == b.toList.map Char.toLower

end NestedLogit.Text
