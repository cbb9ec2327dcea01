import NestedLogit.Text.Blank

/-!
# Arguments

What the words of a command line ask for. Words are read from left to right: the first one that is
not accepted ends the reading, and so does a request for help. A word with a dash in front is a flag
unless it stands behind `--`, and whatever is missing is noticed at the end.

## Main definitions

- `Request`: what is asked for.
- `Request.ofWords`: the request of a command line.
-/

namespace NestedLogit.CommandLine

/-- How a model is run. -/
structure RunOptions where
  /-- Where output files go, if not to the default folder. -/
  outputFolder : Option String
  /-- Whether an output folder that is not empty is replaced. -/
  overwrite : Bool
  /-- Whether share weights are written as well. -/
  debugModel : Bool
  deriving DecidableEq, Repr

/-- A command about example models. -/
inductive ExampleCommand where
  | list
  | info (name : String)
  | extract (name : String) (folder : Option String)
  | run (name : String) (options : RunOptions)
  deriving DecidableEq, Repr

/-- A command about the settings file. -/
inductive SettingsCommand where
  | edit
  | path
  | dumpDefault
  deriving DecidableEq, Repr

/-- A command. -/
inductive Command where
  | run (folder : String) (options : RunOptions)
  | example (command : ExampleCommand)
  | validate (folder : String)
  | settings (command : SettingsCommand)
  deriving DecidableEq, Repr

/-- What a command line asks for. -/
inductive Request where
  | help
  | version
  | markdownHelp
  | command (command : Command)
  deriving DecidableEq, Repr

/-- Words that are not accepted. -/
inductive UsageError where
  /-- A flag that is not known, is given twice, or has a value that it does not take. -/
  | flag (word : String)
  /-- A flag without the value that it takes. -/
  | missingValue (flag : String)
  /-- A word that is one too many, or no name of a command. -/
  | unexpected (word : String)
  /-- A word that has to be there is not, or is empty. -/
  | missing (what : String)
  deriving DecidableEq, Repr

/-- A word, as far as its dashes tell. -/
inductive Word where
  /-- The word behind which nothing is a flag. -/
  | escape
  /-- A flag with a long name, and its value if it has one. -/
  | long (name : String) (value : Option String)
  /-- A flag with a short name, and what follows it in the same word. -/
  | short (name : Char) (rest : String)
  /-- Any other word. -/
  | plain (word : String)
  deriving DecidableEq, Repr

/-- Tells what a word is. A single dash is a plain word. -/
def Word.ofText (word : String) : Word :=
  match word.toList with
  | ['-', '-'] => .escape
  | '-' :: '-' :: rest =>
    let (name, value) := rest.span (· != '=')
    .long (String.ofList name) (if value.isEmpty then none else some (String.ofList (value.drop 1)))
  | '-' :: c :: rest => .short c (String.ofList rest)
  | _ => .plain word

/-- The result of reading words: a value, or a request that ends the reading. -/
abbrev Reading (β : Type) := Except UsageError (Request ⊕ β)

/-- Goes on with a value that was read. -/
def Reading.andThen {β γ : Type} (r : Reading β) (next : β → Reading γ) : Reading γ :=
  match r with
  | .ok (.inr value) => next value
  | .ok (.inl request) => .ok (.inl request)
  | .error e => .error e

/-- Goes on with a value, unless there is none. -/
def Reading.ofExcept {β γ : Type} (x : Except UsageError β) (next : β → Reading γ) : Reading γ :=
  match x with
  | .ok value => next value
  | .error e => .error e

/-- What the words of a command without further commands have given so far. -/
structure Draft where
  /-- The plain words. -/
  words : List String
  options : RunOptions

/-- What words may be given to a command without further commands. -/
structure Signature where
  /-- How many plain words there may be. -/
  words : Nat
  /-- Whether the plain word at a position may be empty. -/
  mayBeEmpty : Nat → Bool
  /-- Whether the options for running a model are known. -/
  runs : Bool

namespace Signature

/-- Adds a plain word. -/
def addWord (s : Signature) (d : Draft) (word : String) : Except UsageError Draft :=
  if s.words ≤ d.words.length then .error (.unexpected word)
  else if word.isEmpty && !s.mayBeEmpty d.words.length then .error (.missing "value")
  else .ok { d with words := d.words ++ [word] }

/-- Sets the output folder. -/
def setOutput (d : Draft) (folder : String) : Except UsageError Draft :=
  if d.options.outputFolder.isSome then .error (.flag "--output-dir")
  else if folder.isEmpty then .error (.missingValue "--output-dir")
  else .ok { d with options := { d.options with outputFolder := some folder } }

/-- Sets a flag that takes no value. -/
def setFlag (d : Draft) (name : String) (value : Option String) : Except UsageError Draft :=
  if value.isSome then .error (.flag name)
  else if name = "overwrite" && !d.options.overwrite then
    .ok { d with options := { d.options with overwrite := true } }
  else if name = "debug-model" && !d.options.debugModel then
    .ok { d with options := { d.options with debugModel := true } }
  else .error (.flag name)

/-- The value of a short flag within the word of the flag; an equals sign in front does not
count. -/
def attached (rest : String) : Option String :=
  match rest.toList with
  | [] => none
  | '=' :: value => some (String.ofList value)
  | _ => some rest

/-- Reads words, where the output folder may be the next one. -/
def read (s : Signature) : Bool → Draft → List String → Reading Draft
  | true, _, [] => .error (.missingValue "--output-dir")
  | false, d, [] => .ok (.inr d)
  | true, d, word :: rest =>
    match Word.ofText word with
    | .plain value => .ofExcept (setOutput d value) (s.read false · rest)
    | _ => .error (.missingValue "--output-dir")
  | false, d, word :: rest =>
    match Word.ofText word with
    | .plain word => .ofExcept (s.addWord d word) (s.read false · rest)
    | .escape => (rest.foldlM s.addWord d).map .inr
    | .short c attachment =>
      if c = 'h' then .ok (.inl .help)
      else if c = 'o' && s.runs then
        match attached attachment with
        | none => s.read true d rest
        | some value => .ofExcept (setOutput d value) (s.read false · rest)
      else .error (.flag word)
    | .long name value =>
      if name = "help" && value.isNone then .ok (.inl .help)
      else if name = "output-dir" && s.runs then
        match value with
        | none => s.read true d rest
        | some value => .ofExcept (setOutput d value) (s.read false · rest)
      else if s.runs then .ofExcept (setFlag d name value) (s.read false · rest)
      else .error (.flag word)

/-- Reads the words of a command. -/
def readAll (s : Signature) (words : List String) : Reading Draft :=
  s.read false ⟨[], ⟨none, false, false⟩⟩ words

end Signature

/-- The word that has to stand at a position. -/
def Draft.word (d : Draft) (position : Nat) (what : String) : Except UsageError String :=
  match d.words[position]? with
  | some word => .ok word
  | none => .error (.missing what)

/-- Makes a command of what was read. -/
def Reading.command {β : Type} (r : Reading Draft) (make : Draft → Except UsageError β) :
    Reading β :=
  r.andThen fun d => (make d).map .inr

/-- The commands, each with the commands it is divided into. -/
def commandTree : List (String × List String) :=
  [("run", []),
    ("example", ["list", "info", "extract", "run", "help"]),
    ("validate", []),
    ("settings", ["edit", "path", "dump-default", "help"]),
    ("help", [])]

/-- The request for help on a command that is named in words. -/
def helpOn {β : Type} : List String → Reading β
  | [] => .ok (.inl .help)
  | [word] =>
    if (commandTree.lookup word).isSome then .ok (.inl .help) else .error (.unexpected word)
  | word :: inner :: rest =>
    if inner ∈ (commandTree.lookup word).getD [] && rest.isEmpty then .ok (.inl .help)
    else .error (.unexpected word)

/-- Reads the name of a command that belongs to another one, and the words behind it. -/
def readInner {β : Type} (parent : String) (read : String → List String → Reading β) :
    List String → Reading β
  | [] => .error (.missing "command")
  | word :: rest =>
    match Word.ofText word with
    | .escape => .error (.missing "command")
    | .short c _ => if c = 'h' then .ok (.inl .help) else .error (.flag word)
    | .long name value =>
      if name = "help" && value.isNone then .ok (.inl .help) else .error (.flag word)
    | .plain word => if word = "help" then helpOn (parent :: rest) else read word rest

/-- Reads the words of a command about examples. -/
def readExample : String → List String → Reading ExampleCommand
  | "list", words => ((⟨0, fun _ => false, false⟩ : Signature).readAll words).command
    fun _ => .ok .list
  | "info", words => ((⟨1, fun _ => true, false⟩ : Signature).readAll words).command
    fun d => return .info (← d.word 0 "name")
  | "extract", words => ((⟨2, (· == 0), false⟩ : Signature).readAll words).command
    fun d => return .extract (← d.word 0 "name") d.words[1]?
  | "run", words => ((⟨1, fun _ => true, true⟩ : Signature).readAll words).command
    fun d => return .run (← d.word 0 "name") d.options
  | word, _ => .error (.unexpected word)

/-- Reads the words of a command about the settings file. -/
def readSettings (word : String) (words : List String) : Reading SettingsCommand :=
  let signature : Signature := ⟨0, fun _ => false, false⟩
  match word with
  | "edit" => (signature.readAll words).command fun _ => .ok .edit
  | "path" => (signature.readAll words).command fun _ => .ok .path
  | "dump-default" => (signature.readAll words).command fun _ => .ok .dumpDefault
  | word => .error (.unexpected word)

/-- Reads the words of a command. -/
def readCommand : String → List String → Reading Command
  | "run", words => ((⟨1, fun _ => false, true⟩ : Signature).readAll words).command
    fun d => return .run (← d.word 0 "model folder") d.options
  | "validate", words => ((⟨1, fun _ => false, false⟩ : Signature).readAll words).command
    fun d => return .validate (← d.word 0 "model folder")
  | "example", words =>
    Reading.andThen (readInner "example" readExample words) fun c => .ok (.inr (.example c))
  | "settings", words =>
    Reading.andThen (readInner "settings" readSettings words) fun c => .ok (.inr (.settings c))
  | "help", words => helpOn words
  | word, _ => .error (.unexpected word)

/-- Reads a command line, given whether the flag for help as a document was seen. -/
def readRequest : Bool → List String → Except UsageError Request
  | markdown, [] => .ok (if markdown then .markdownHelp else .help)
  | markdown, word :: rest =>
    match Word.ofText word with
    | .escape =>
      match rest with
      | [] => .ok (if markdown then .markdownHelp else .help)
      | word :: _ => .error (.unexpected word)
    | .short c _ =>
      if c = 'h' then .ok .help else if c = 'V' then .ok .version else .error (.flag word)
    | .long name value =>
      if value.isSome then .error (.flag word)
      else if name = "help" then .ok .help
      else if name = "version" then .ok .version
      else if name = "markdown-help" && !markdown then readRequest true rest
      else .error (.flag word)
    | .plain word =>
      (readCommand word rest).map fun
        | .inl request => request
        | .inr command => if markdown then .markdownHelp else .command command

/-- What a command line asks for. Without words it asks for help. -/
def Request.ofWords (words : List String) : Except UsageError Request :=
  readRequest false words

end NestedLogit.CommandLine
