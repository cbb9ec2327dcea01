import NestedLogit.Text.Blank

/-!
# Failures

Why the program does not do what it was asked for: a chain of links, the outermost first, and how it
is shown with the causes below it.
-/

namespace NestedLogit.CommandLine

/-- Why the program stopped. -/
structure Failure where
  links : List String
  deriving DecidableEq, Repr

namespace Failure

/-- Puts a link in front. -/
def within (context : String) (f : Failure) : Failure :=
  ⟨context :: f.links⟩

/-- A cause with a margin in front of its first line and another one in front of the others. -/
def indented (first others cause : String) : String :=
  let lines := (Text.cut '\n' cause.toList).map String.ofList
  first ++ String.intercalate ("\n" ++ others) lines

/-- The number of a cause, in five places. -/
def numberMargin (i : Nat) : String :=
  let text := toString i
  String.ofList (List.replicate (5 - text.length) ' ') ++ text ++ ": "

/-- The causes below the outermost link. Several are numbered. -/
def causes : List String → String
  | [] => ""
  | [cause] => "\n\nCaused by:\n" ++ indented "    " "    " cause
  | several =>
    "\n\nCaused by:" ++ String.join
      (several.mapIdx fun i cause => "\n" ++ indented (numberMargin i) "       " cause)

/-- A failure as it is shown. -/
def text (f : Failure) : String :=
  match f.links with
  | [] => ""
  | outermost :: below => outermost ++ causes below

end Failure

end NestedLogit.CommandLine
