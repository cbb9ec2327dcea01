import NestedLogit.Host
import NestedLogit.OrderedMap

/-!
# File trees

Files and folders in memory. A place is the list of parts that leads to it from the root, which is
always a folder. Paths are followed part by part, so that every part but the last has to be there.
-/

namespace NestedLogit

/-- What there is at a place. -/
inductive FileEntry where
  | folder
  | file (text : String)
  deriving DecidableEq, Repr

/-- Files and folders by their places. -/
structure FileTree where
  entries : OrderedMap (List String) FileEntry

namespace FileTree

/-- A tree without files. -/
def empty : FileTree :=
  ⟨.empty⟩

/-- What there is at a place. -/
def at? (t : FileTree) (place : List String) : Option FileEntry :=
  if place.isEmpty then some .folder else t.entries.get? place

/-- Puts something at a place. -/
def put (t : FileTree) (place : List String) (entry : FileEntry) : FileTree :=
  ⟨t.entries.insert place entry⟩

/-- The place that a path leads to from a place; there may be nothing at the last one. -/
def follow (t : FileTree) (place : List String) : List String → Except AccessError (List String)
  | [] => .ok place
  | part :: rest =>
    match t.at? place with
    | none => .error .notFound
    | some (.file _) => .error .notAFolder
    | some .folder =>
      if part = "." then follow t place rest
      else if part = ".." then follow t place.dropLast rest
      else follow t (place ++ [part]) rest

/-- The text of a file. -/
def readText (t : FileTree) (place : List String) : Except AccessError String :=
  match t.at? place with
  | none => .error .notFound
  | some .folder => .error .isAFolder
  | some (.file text) => .ok text

/-- Changes the text of a file, or creates it with a change of the empty text. -/
def changeText (t : FileTree) (place : List String) (change : String → String) :
    Except AccessError FileTree :=
  match t.at? place with
  | some .folder => .error .isAFolder
  | some (.file text) => .ok (t.put place (.file (change text)))
  | none =>
    match t.at? place.dropLast with
    | none => .error .notFound
    | some (.file _) => .error .notAFolder
    | some .folder => .ok (t.put place (.file (change "")))

/-- The names in a folder. -/
def names (t : FileTree) (place : List String) : List String :=
  t.entries.keys.filterMap fun key => if key.dropLast = place then key.getLast? else none

/-- Creates a folder at a place whose parent is there. -/
def createFolder (t : FileTree) (place : List String) : Except AccessError FileTree :=
  match t.at? place with
  | some _ => .error .alreadyExists
  | none =>
    match t.at? place.dropLast with
    | none => .error .notFound
    | some (.file _) => .error .notAFolder
    | some .folder => .ok (t.put place .folder)

/-- Creates the folders on a path from a place, as far as they are missing. -/
def createFolders (t : FileTree) (place : List String) : List String → Except AccessError FileTree
  | [] => .ok t
  | part :: rest =>
    if part = "." then createFolders t place rest
    else if part = ".." then createFolders t place.dropLast rest
    else
      let place := place ++ [part]
      match t.at? place with
      | some .folder => createFolders t place rest
      | some (.file _) => .error (if rest.isEmpty then .alreadyExists else .notAFolder)
      | none => createFolders (t.put place .folder) place rest

/-- Removes everything in a folder. -/
def clear (t : FileTree) (place : List String) : FileTree :=
  ⟨t.entries.filterKeys fun key => key = place || !place.isPrefixOf key⟩

/-- Removes something and everything in it. -/
def remove (t : FileTree) (place : List String) : FileTree :=
  ⟨t.entries.filterKeys fun key => !place.isPrefixOf key⟩

/-- Adds a folder with all folders that lead to it, unless there is a file among them. -/
def addFolder (t : FileTree) (place : List String) : FileTree :=
  (t.createFolders [] place).toOption.getD t

/-- Adds a file with all folders that lead to it. -/
def addFile (t : FileTree) (place : List String) (text : String) : FileTree :=
  (t.addFolder place.dropLast).put place (.file text)

end FileTree

end NestedLogit
