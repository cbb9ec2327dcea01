import NestedLogit.CommandLine.Execution

/-!
# The program

The host that is the machine itself, and the entry point.
-/

namespace NestedLogit

/-- Why an access failed, as the system tells. -/
def accessError : IO.Error → AccessError
  | .noFileOrDirectory .. => .notFound
  | .alreadyExists .. => .alreadyExists
  | .inappropriateType _ code _ => if code = 20 then .notAFolder else .isAFolder
  | .unsatisfiedConstraints .. => .notEmpty
  | .invalidArgument .. => .invalid
  | e => .other (toString e)

/-- Does something on the machine that may not succeed. -/
def attempt {β : Type} (x : IO β) : IO (Except AccessError β) := do
  try
    return .ok (← x)
  catch e =>
    return .error (accessError e)

instance : Host IO where
  readText path := attempt (IO.FS.readFile path)
  writeText path text := attempt (IO.FS.writeFile path text)
  appendText path text := attempt (IO.FS.withFile path .append fun h => h.putStr text)
  isFile path := do
    match ← attempt (System.mkFilePath [path]).metadata with
    | .ok data => return data.type == .file
    | .error _ => return false
  isThere path := (System.mkFilePath [path]).pathExists
  entries? path := do
    match ← attempt (System.mkFilePath [path]).readDir with
    | .ok entries => return some (entries.toList.map (·.fileName))
    | .error _ => return none
  createFolder path := attempt (IO.FS.createDir path)
  createFolders path := attempt (IO.FS.createDirAll path)
  removeFolder path := attempt (IO.FS.removeDirAll path)
  absolute path := attempt do
    let _ ← (System.mkFilePath [path]).metadata
    return toString (← IO.FS.realPath path)
  createTemporaryFolder := attempt do
    return toString (← IO.FS.createTempDir)
  say
    | .output, text => do (← IO.getStdout).putStr text
    | .errors, text => do (← IO.getStderr).putStr text

/-- The folder of the user's settings for this program. -/
def settingsFolder : IO String := do
  let home := (← IO.getEnv "HOME").getD "/"
  let configured := ((← IO.getEnv "XDG_CONFIG_HOME").filter (Path.isAbsolute ·))
  return Path.join (configured.getD (Path.join home ".config")) "equishare"

/-- What the surroundings tell the program. -/
def environment : IO CommandLine.Environment := do
  return ⟨← settingsFolder, ← IO.getEnv "EQUISHARE_LOG_LEVEL", Decimal.plain⟩

end NestedLogit

/-- Does what the command line asks for. -/
def main (words : List String) : IO UInt32 := do
  NestedLogit.CommandLine.respond (← NestedLogit.environment) words
