import NestedLogit.CommandLine.Arguments
import NestedLogit.CommandLine.Example
import NestedLogit.CommandLine.Session
import NestedLogit.CommandLine.Settings
import NestedLogit.Decimal.Notation
import NestedLogit.Simulation

/-!
# Execution of commands

What each command does on a host, and the exit code of a whole command line: zero, one if a command
fails, two if the words are not accepted.
-/

namespace NestedLogit.CommandLine

open Session

variable {m : Type → Type} [Monad m] [Host m]

/-! ## Settings -/

/-- The path of the settings file. -/
def Environment.settingsPath (env : Environment) : String :=
  Path.join env.settingsFolder Settings.fileName

/-- The user's settings. -/
def loadSettings (env : Environment) : Session m Settings :=
  within "Failed to load settings." do
    if ← lift (Host.isFile env.settingsPath) then
      within s!"Error reading {env.settingsPath}" do
        match Settings.ofText? (← access (Host.readText env.settingsPath)) with
        | some settings => return settings
        | none => fail ["invalid TOML"]
    else return Settings.default

/-- Creates the settings file with the default text, unless there is one. -/
def createSettings (env : Environment) : Session m Unit := do
  if !(← lift (Host.isFile env.settingsPath)) then
    within s!"Failed to create directory: {env.settingsFolder}"
      (access (Host.createFolders env.settingsFolder))
    access (Host.writeText env.settingsPath Settings.defaultText)

/-- Executes a command about the settings file. The file is prepared for editing; the editor is up
to the user. -/
def executeSettings (env : Environment) : SettingsCommand → Session m Unit
  | .edit => do
    createSettings env
    print s!"Opening settings file for editing: {env.settingsPath}\n"
  | .path => print s!"{env.settingsPath}\n"
  | .dumpDefault => print Settings.defaultText

/-! ## Models -/

/-- The part of the program that the commands are. -/
def commandSource : String :=
  "equishare::cli"

/-- Reports on the course of a command. -/
def inform (text : String) : Session m Unit :=
  report ⟨.info, commandSource, text⟩

/-- The model in a folder. -/
def loadModel (folder : String) : Session m (Model Float) := do
  let path (file : ModelFile) : String := Path.join folder file.name
  let read (file : ModelFile) : Session m (Except AccessError String) :=
    lift (Host.readText (path file))
  let parameters ← read .parameters
  let regions ← read .regions
  let sectors ← read .sectors
  let subsectors ← read .subsectors
  let subsectorParameters ← read .subsectorParameters
  let technologies ← read .technologies
  let technologyParameters ← read .technologyParameters
  let demand ← read .demand
  let marketPrices ← read .marketPrices
  let carbonTax ← read .carbonTax
  let tables := Tables.ofFiles fun
    | .parameters => parameters
    | .regions => regions
    | .sectors => sectors
    | .subsectors => subsectors
    | .subsectorParameters => subsectorParameters
    | .technologies => technologies
    | .technologyParameters => technologyParameters
    | .demand => demand
    | .marketPrices => marketPrices
    | .carbonTax => carbonTax
  match tables.load with
  | .ok model => return model
  | .error e => fail (e.chain Decimal.plain path)

/-- The folder that the output of a model goes to by default: one with the name of the model's
folder among the results. -/
def defaultOutputFolder (folder : String) : Session m String := do
  let absolute ← within "Could not resolve path to model" (access (Host.absolute folder))
  match (Path.parts absolute).getLast? with
  | some name => return Path.join "equishare_results" name
  | none => fail ["Model cannot be in root folder"]

/-- Prepares an empty output folder. Tells whether something was there that was removed, which has
to be allowed. -/
def prepareOutput (folder : String) (overwrite : Bool) : Session m Bool := do
  match ← lift (Host.entries? folder) with
  | some [] => return false
  | some _ =>
    if overwrite then
      within "Could not delete folder" (access (Host.removeFolder folder))
      access (Host.createFolders folder)
      return true
    else fail ["Output folder already exists and is not empty. Please delete the folder or pass "
      ++ "the --overwrite command-line option."]
  | none =>
    access (Host.createFolders folder)
    return false

/-- The name of the file that says what an output folder is the output of. -/
def metadataFile : String :=
  "metadata.toml"

/-- What an output folder is the output of. -/
def metadata (folder : String) : String :=
  s!"[program]\nname = \"equishare\"\nversion = \"0.1.0\"\n\n[model]\npath = {Text.quoted folder}\n"

/-- Runs a model and writes its output to a folder. The reports on the periods before one whose
calculation stops are written as well. -/
def simulateModel (env : Environment) (model : Model Float) (folder output : String)
    (debugModel : Bool) : Session m Unit := do
  within "Failed to save metadata"
    (access (Host.writeText (Path.join output metadataFile) (metadata folder)))
  let run := model.simulate
  for event in run.log do
    report (.ofEvent env.amount event)
  for table in reportTables Decimal.tabular debugModel run.state.reports do
    access (Host.writeText (Path.join output table.file) table.text)
  if let some e := run.failure then fail (e.chain Decimal.plain)

/-- Loads and runs the model in a folder. -/
def runModel (env : Environment) (folder : String) (options : RunOptions) : Session m Unit := do
  let settings ← loadSettings env
  let output ← match options.outputFolder with
    | some output => pure output
    | none => defaultOutputFolder folder
  let replaced ← within s!"Failed to create output directory: {output}"
    (prepareOutput output (settings.overwrite || options.overwrite))
  within "Failed to initialise logging." (openJournal env settings.logLevel (some output))
  let model ← within "Failed to load model." (loadModel folder)
  inform s!"Loaded model from {folder}"
  inform s!"Output folder: {output}"
  if replaced then report ⟨.warn, commandSource, "Output folder will be overwritten"⟩
  simulateModel env model folder output (settings.debugModel || options.debugModel)
  inform "Simulation complete!"

/-- Loads the model in a folder and does nothing with it. -/
def validateModel (env : Environment) (folder : String) : Session m Unit := do
  let settings ← loadSettings env
  within "Failed to initialise logging." (openJournal env settings.logLevel none)
  let _ ← within "Failed to validate model." (loadModel folder)
  inform "Model validation successful!"

/-! ## Examples -/

/-- An example by its name. -/
def findExample (name : String) : Session m Example :=
  match Example.find? name with
  | some e => return e
  | none => fail ["Example not found."]

/-- Writes the files of an example to a new folder. -/
def extractExample (name folder : String) : Session m Unit := do
  let e ← findExample name
  if ← lift (Host.isThere folder) then fail [s!"Destination directory {folder} already exists"]
  access (Host.createFolder folder)
  for (file, text) in e.files do
    access (Host.writeText (Path.join folder file) text)

/-- Runs an example out of a temporary folder. -/
def runExample (env : Environment) (name : String) (options : RunOptions) : Session m Unit := do
  let temporary ← within "Failed to create temporary directory."
    (access Host.createTemporaryFolder)
  let folder := Path.join temporary name
  let clean : Session m Unit := do
    let _ ← lift (Host.removeFolder temporary)
  tryCatch (do extractExample name folder; runModel env folder options) fun f => do
    clean
    throw f
  clean

/-- Executes a command about examples. -/
def executeExample (env : Environment) : ExampleCommand → Session m Unit
  | .list => print (String.join (Example.all.map fun e => e.name ++ "\n"))
  | .info name => do
    let e ← findExample name
    print (e.text?.getD "" ++ "\n")
  | .extract name folder => extractExample name (folder.getD name)
  | .run name options => runExample env name options

/-! ## Command lines -/

/-- Executes a command. -/
def execute (env : Environment) : Command → Session m Unit
  | .run folder options => runModel env folder options
  | .example command => executeExample env command
  | .validate folder => validateModel env folder
  | .settings command => executeSettings env command

/-- The version of the program. -/
def versionText : String :=
  "equishare 0.1.0\n"

/-- What the program can be asked for. -/
def helpText : String :=
  textOfLines [
    "Multi-region market share equilibrium core with nested-logit allocation and calibration",
    "",
    "Usage: equishare [COMMAND]",
    "",
    "Commands:",
    "  run <MODEL_DIR> [-o <OUTPUT_DIR>] [--overwrite] [--debug-model]",
    "  example list | info <NAME> | extract <NAME> [NEW_PATH] | run <NAME> [OPTIONS]",
    "  validate <MODEL_DIR>",
    "  settings edit | path | dump-default",
    "  help [COMMAND]",
    "",
    "Options:",
    "  -h, --help     Print help",
    "  -V, --version  Print version"]

/-- Shows a failure: in the journal if there is one, else on the terminal. -/
def showFailure (journal : Option Journal) (f : Failure) : m Unit :=
  match journal with
  | some journal => journal.write ⟨.error, "equishare", f.text⟩
  | none => Host.say .errors s!"Error: {f.text}\n"

/-- Executes a command and returns the exit code. -/
def perform (env : Environment) (command : Command) : m UInt32 := do
  match ← (execute env command).run.run none with
  | (.ok _, _) => return 0
  | (.error f, journal) =>
    showFailure journal f
    return 1

/-- Does what a command line asks for and returns the exit code. -/
def respond (env : Environment) (words : List String) : m UInt32 :=
  match Request.ofWords words with
  | .error _ => do
    Host.say .errors helpText
    return 2
  | .ok .help | .ok .markdownHelp => do
    Host.say .output helpText
    return 0
  | .ok .version => do
    Host.say .output versionText
    return 0
  | .ok (.command command) => perform env command

end NestedLogit.CommandLine
