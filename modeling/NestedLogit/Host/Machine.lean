import NestedLogit.Host.FileTree

/-!
# Machines in memory

A host whose files are a tree in memory and whose terminal collects what it shows.
-/

namespace NestedLogit

/-- A machine in memory. -/
structure Machine where
  files : FileTree
  /-- The folder that relative paths begin at. -/
  work : List String
  /-- The place of the folder for files that are needed for a while. -/
  temporary : List String
  /-- What was shown, in order. -/
  shown : List (Channel × String)

namespace Machine

/-- The text that was shown on a channel. -/
def text (m : Machine) (channel : Channel) : String :=
  String.join (m.shown.filterMap fun x => if x.1 = channel then some x.2 else none)

/-- The place that a path begins at. -/
def origin (m : Machine) (path : String) : List String :=
  if Path.isAbsolute path then [] else m.work

/-- The place that a path leads to. -/
def follow (m : Machine) (path : String) : Except AccessError (List String) :=
  if path.isEmpty then .error .notFound else m.files.follow (m.origin path) (Path.parts path)

/-- What there is where a path leads to. -/
def at? (m : Machine) (path : String) : Option FileEntry :=
  (m.follow path).toOption.bind m.files.at?

/-- Removes the folder that a path names, whose contents are gone already. A path that leads nowhere
without them is as good as one whose folder is removed; one that ends in a point or two is
refused. -/
def removeEmptied (m : Machine) (path : String) : Except AccessError FileTree :=
  let parts := Path.parts path
  match m.files.follow (m.origin path) parts.dropLast with
  | .error _ => .ok m.files
  | .ok parent =>
    if parts.length > 1 && m.files.at? parent ≠ some .folder then .ok m.files
    else match parts.getLast? with
      | none | some "." => .error .invalid
      | some ".." => .error .notEmpty
      | some name => .ok (m.files.remove (parent ++ [name]))

/-- Removes a folder: first everything in it, then the folder itself. What is in it is gone even if
the folder cannot be removed. -/
def removeFolder (m : Machine) (path : String) : Except AccessError Unit × Machine :=
  match m.follow path with
  | .error e => (.error e, m)
  | .ok place =>
    match m.files.at? place with
    | none => (.error .notFound, m)
    | some (.file _) => (.error .notAFolder, m)
    | some .folder =>
      let m := { m with files := m.files.clear place }
      match m.removeEmptied path with
      | .ok files => (.ok (), { m with files })
      | .error e => (.error e, m)

/-- Changes the files of the machine, unless the change fails. -/
def change (f : Machine → Except AccessError FileTree) : StateM Machine (Except AccessError Unit) :=
  fun m =>
    match f m with
    | .ok files => (.ok (), { m with files })
    | .error e => (.error e, m)

/-- Looks at the machine. -/
def look {β : Type} (f : Machine → β) : StateM Machine β :=
  fun m => (f m, m)

instance : Host (StateM Machine) where
  readText path := look fun m => do m.files.readText (← m.follow path)
  writeText path text := change fun m => do m.files.changeText (← m.follow path) fun _ => text
  appendText path text := change fun m => do m.files.changeText (← m.follow path) (· ++ text)
  isFile path := look fun m => match m.at? path with
    | some (.file _) => true
    | _ => false
  isThere path := look fun m => (m.at? path).isSome
  entries? path := look fun m =>
    if m.at? path = some .folder then (m.follow path).toOption.map m.files.names else none
  createFolder path := change fun m => do m.files.createFolder (← m.follow path)
  createFolders path := change fun m => m.files.createFolders (m.origin path) (Path.parts path)
  removeFolder path := fun m => m.removeFolder path
  absolute path := look fun m => do
    let place ← m.follow path
    if (m.files.at? place).isSome then return Path.ofParts place else throw .notFound
  createTemporaryFolder := fun m =>
    match m.files.createFolders [] m.temporary with
    | .ok files => (.ok (Path.ofParts m.temporary), { m with files })
    | .error e => (.error e, m)
  say channel text := fun m => ((), { m with shown := m.shown ++ [(channel, text)] })

end Machine

end NestedLogit
