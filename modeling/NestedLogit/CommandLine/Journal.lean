import NestedLogit.Event
import NestedLogit.Host
import NestedLogit.Text.Lowercase

/-!
# The journal

What the program reports is shown on the terminal as far as the chosen level goes. If there is an
output folder, it is also written to two files there: warnings and errors always go to one of them,
and everything down to information, or further if the level goes further, to the other.
-/

namespace NestedLogit.CommandLine

/-- How much is shown: nothing, or everything from a severity on. -/
inductive JournalLevel where
  | off
  | upTo (severity : Severity)
  deriving DecidableEq, Repr

/-- A word for no level. -/
structure UnknownLevel where
  word : String
  deriving DecidableEq, Repr

/-- The message for a word for no level. -/
def UnknownLevel.message (e : UnknownLevel) : String :=
  s!"Unknown log level: {e.word}"

/-- The level that a word stands for, in any case. -/
def JournalLevel.ofWord (word : String) : Except UnknownLevel JournalLevel :=
  match Text.lowercase word with
  | "off" => .ok .off
  | "error" => .ok (.upTo .error)
  | "warn" => .ok (.upTo .warn)
  | "info" => .ok (.upTo .info)
  | "debug" => .ok (.upTo .debug)
  | "trace" => .ok (.upTo .trace)
  | unknown => .error ⟨unknown⟩

/-- Whether a level includes a severity. -/
def JournalLevel.includes (level : JournalLevel) (severity : Severity) : Bool :=
  match level with
  | .off => false
  | .upTo limit => severity.rank ≤ limit.rank

/-- Something that is reported. -/
structure JournalEntry where
  severity : Severity
  /-- The part of the program that reports it. -/
  source : String
  text : String

/-- The lines of an entry. -/
def JournalEntry.line (e : JournalEntry) : String :=
  s!"[{e.severity.label} {e.source}] {e.text}\n"

/-- Whether an entry is a warning or an error. -/
def JournalEntry.isAlarm (e : JournalEntry) : Bool :=
  e.severity.rank ≤ Severity.warn.rank

/-- An event as an entry, with calculated amounts written in a given way. -/
def JournalEntry.ofEvent {α : Type} (amount : α → String) (e : Event α) : JournalEntry :=
  ⟨e.severity, e.source, e.text amount⟩

/-- Where entries go. -/
structure Journal where
  level : JournalLevel
  /-- The folder of the journal's files, if there are any. -/
  folder : Option String

namespace Journal

/-- The file for the ordinary operation of the program. -/
def infoFile : String :=
  "equishare_info.log"

/-- The file for warnings and errors. -/
def errorFile : String :=
  "equishare_error.log"

variable {m : Type → Type} [Monad m] [Host m]

/-- Adds a line to a file of the journal. -/
def append (j : Journal) (file line : String) : m Unit :=
  match j.folder with
  | none => pure ()
  | some folder => do
    let _ ← Host.appendText (Path.join folder file) line

/-- Writes an entry wherever it belongs. -/
def write (j : Journal) (e : JournalEntry) : m Unit := do
  if e.isAlarm then
    if j.level.includes e.severity then Host.say .errors e.line
    j.append errorFile e.line
  else
    if j.level.includes e.severity then Host.say .output e.line
    if e.severity = .info || j.level.includes e.severity then j.append infoFile e.line

end Journal

end NestedLogit.CommandLine
