import NestedLogit.Text.Blank

/-!
# Hosts

What the program needs of the machine it runs on: access to files and folders, and a terminal. The
program is written against a class, so that it runs on a real machine and on one in memory.

Paths are texts whose parts have slashes between them. A path is kept as it was given, because
messages show it; its parts are taken when it is followed.

## Main definitions

- `AccessError` — why an access to a file or a folder fails
- `Path.parts` — the parts of a path
- `Host` — a machine with files and a terminal
-/

namespace NestedLogit

/-- Why an access to a file or a folder fails. -/
inductive AccessError where
  | notFound
  | alreadyExists
  | notAFolder
  | isAFolder
  | invalid
  | notEmpty
  /-- Another reason, which the system explains. -/
  | other (text : String)
  deriving DecidableEq, Repr

/-- The message for an access that fails. -/
def AccessError.message : AccessError → String
  | .notFound => "No such file or directory (os error 2)"
  | .alreadyExists => "File exists (os error 17)"
  | .notAFolder => "Not a directory (os error 20)"
  | .isAFolder => "Is a directory (os error 21)"
  | .invalid => "Invalid argument (os error 22)"
  | .notEmpty => "Directory not empty (os error 39)"
  | .other text => text

/-- Whether nothing is where the access went. -/
def AccessError.isAbsence : AccessError → Bool
  | .notFound | .notAFolder => true
  | _ => false

namespace Path

/-- Whether a path begins at the root. -/
def isAbsolute (path : String) : Bool :=
  path.toList.head? = some '/'

/-- The parts of a path. Several slashes count as one. -/
def parts (path : String) : List String :=
  (((Text.cut '/' path.toList).filter fun part => !part.isEmpty)).map String.ofList

/-- The path of something in a folder. -/
def join (folder name : String) : String :=
  if folder.isEmpty then name
  else if folder.toList.getLast? = some '/' then folder ++ name
  else folder ++ "/" ++ name

/-- The path from the root that consists of given parts. -/
def ofParts (parts : List String) : String :=
  "/" ++ String.intercalate "/" parts

/-- Whether a path is nothing but a name: apart from slashes behind it and points that lead nowhere,
it has no other parts. -/
def isName (path name : String) : Bool :=
  !isAbsolute path &&
    match parts path with
    | [] => false
    | first :: rest => first = name && rest.all (· = ".")

end Path

/-- Where a terminal shows a text. -/
inductive Channel where
  | output
  | errors
  deriving DecidableEq, Repr

/-- A machine with files and a terminal. Files and folders are named by their paths. -/
class Host (m : Type → Type) where
  /-- The text of a file. -/
  readText : String → m (Except AccessError String)
  /-- Puts a text into a file, in place of what it holds. -/
  writeText : String → String → m (Except AccessError Unit)
  /-- Adds a text at the end of a file. -/
  appendText : String → String → m (Except AccessError Unit)
  /-- Whether there is a file. -/
  isFile : String → m Bool
  /-- Whether there is a file or a folder. -/
  isThere : String → m Bool
  /-- The names in a folder, if there is one. -/
  entries? : String → m (Option (List String))
  /-- Creates a folder in one that is there. -/
  createFolder : String → m (Except AccessError Unit)
  /-- Creates a folder and all folders that lead to it, as far as they are missing. -/
  createFolders : String → m (Except AccessError Unit)
  /-- Removes a folder with everything in it. -/
  removeFolder : String → m (Except AccessError Unit)
  /-- The path from the root, without detours, of something that is there. -/
  absolute : String → m (Except AccessError String)
  /-- Creates a folder for files that are needed for a while. -/
  createTemporaryFolder : m (Except AccessError String)
  /-- Shows a text on the terminal. -/
  say : Channel → String → m Unit

end NestedLogit
