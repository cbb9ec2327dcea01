import NestedLogit.CommandLine.Failure
import NestedLogit.CommandLine.Journal

/-!
# Sessions

The course of a command on a host: it may open a journal, and it may fail. The journal stays open
when the command fails, so that the failure can be written to it.
-/

namespace NestedLogit.CommandLine

/-- What the program is told by its surroundings. -/
structure Environment where
  /-- The folder of the user's settings. -/
  settingsFolder : String
  /-- The word for how much is shown, which counts more than the settings. -/
  logLevel : Option String
  /-- How calculated amounts are written in the journal. -/
  amount : Float → String

/-- A command on a host. -/
abbrev Session (m : Type → Type) := ExceptT Failure (StateT (Option Journal) m)

namespace Session

variable {m : Type → Type} [Monad m] {β ε : Type}

/-- Does something on the host. -/
def lift (x : m β) : Session m β :=
  ExceptT.lift (StateT.lift x)

/-- Stops with a failure. -/
def fail (links : List String) : Session m β :=
  throw ⟨links⟩

/-- Goes on with a value, or stops with the message of an error. -/
def check (message : ε → String) (x : Except ε β) : Session m β :=
  match x with
  | .ok value => pure value
  | .error e => fail [message e]

/-- Does something on the host that may not succeed. -/
def access (x : m (Except AccessError β)) : Session m β := do
  check AccessError.message (← lift x)

/-- Says what was being done when something fails. -/
def within (context : String) (x : Session m β) : Session m β :=
  tryCatch x fun f => throw (f.within context)

variable [Host m]

/-- Shows a text on the terminal. -/
def print (text : String) : Session m Unit :=
  lift (Host.say .output text)

/-- Writes an entry to the journal, if there is one. -/
def report (e : JournalEntry) : Session m Unit := do
  match ← getThe (Option Journal) with
  | some journal => lift (journal.write e)
  | none => pure ()

/-- Opens the journal, with its files in a folder if one is given. -/
def openJournal (env : Environment) (word : String) (folder : Option String) : Session m Unit := do
  let level ← check UnknownLevel.message (JournalLevel.ofWord (env.logLevel.getD word))
  if let some folder := folder then
    access (Host.writeText (Path.join folder Journal.infoFile) "")
    access (Host.writeText (Path.join folder Journal.errorFile) "")
  set (some (⟨level, folder⟩ : Journal))

end Session

end NestedLogit.CommandLine
