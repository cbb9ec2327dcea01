import NestedLogit.Toml.Reader

/-!
# Settings

What a user can set for all runs of the program, in a file of the user's configuration folder.
Whatever the file does not set has a default.
-/

namespace NestedLogit.CommandLine

/-- The settings of a user. -/
structure Settings where
  /-- The word for how much is shown. -/
  logLevel : String
  /-- Whether output folders are replaced. -/
  overwrite : Bool
  /-- Whether share weights are written. -/
  debugModel : Bool
  deriving DecidableEq, Repr

/-- A setting in the default file: its name, what it is for, and its default as it is written. -/
structure SettingLine where
  key : String
  purpose : String
  default : String

namespace Settings

/-- The settings without a file. -/
def default : Settings :=
  ⟨"info", false, false⟩

/-- The name of the file. -/
def fileName : String :=
  "settings.toml"

/-- The settings of a document. -/
def ofDocument? (fields : Toml.Fields) : Option Settings := do
  let logLevel ← Toml.field? fields "log_level" Toml.Value.text?
  let overwrite ← Toml.field? fields "overwrite" Toml.Value.boolean?
  let debugModel ← Toml.field? fields "debug_model" Toml.Value.boolean?
  return ⟨logLevel.getD default.logLevel, overwrite.getD default.overwrite,
    debugModel.getD default.debugModel⟩

/-- The settings of the text of a file. -/
def ofText? (text : String) : Option Settings :=
  (Toml.read? text).bind ofDocument?

/-- A truth value as it is written. -/
def flag (b : Bool) : String :=
  if b then "true" else "false"

/-- The lines of the default file. -/
def defaultLines : List SettingLine :=
  [⟨"log_level", "The default program log level", "\"" ++ default.logLevel ++ "\""⟩,
    ⟨"overwrite", "Whether to overwrite output files by default", flag default.overwrite⟩,
    ⟨"debug_model", "Whether to write share weights used in each period to an extra CSV file",
      flag default.debugModel⟩]

/-- A setting in the default file, which is commented out. -/
def defaultLine (line : SettingLine) : String :=
  s!"\n# # {line.purpose}\n# {line.key} = {line.default}\n"

/-- The text of the default file. -/
def defaultText : String :=
  "# Program settings for equishare\n"
    ++ "# Uncomment a line to change the setting from its default value\n"
    ++ String.join (defaultLines.map defaultLine)

end Settings

end NestedLogit.CommandLine
