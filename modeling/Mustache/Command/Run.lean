import Mustache.Command.Arguments
import Mustache.Data
import Mustache.Render.Run

/-!
# Running the command

The command reads the settings, the data, the partials and the template, in this order,
and renders the template. Only when all of this has succeeded is the output written
(`fill`). It tells what it does on the way if it is asked to.

What the command is run on is left open (`Host`): the files may be real, or those of a
`FileSystem` that is a matter of computation, such as a `Store`. So is the `Dialect` that
the files are written in.
-/

namespace Mustache.Command

/-- What the command is run on. -/
structure Host (m : Type → Type) where
  /-- The text in a file. -/
  read : String → m (Except FileError String)
  /-- Whether a path names a file. -/
  isFile : String → m Bool
  /-- Writes a text to a file. -/
  write : String → String → m (Except FileError Unit)
  /-- Shows output. -/
  display : String → m (Except FileError Unit)
  /-- Shows a message. -/
  note : String → m Unit

/-- Why the command fails. -/
inductive Failure where
  | settings (path : String) (e : SettingsError)
  | data (path : String) (e : Error)
  | readPartial (path : String) (e : FileError)
  | addPartial (e : Error)
  | readTemplate (path : String) (e : FileError)
  | render (path : String) (e : TemplateError)
  | write (e : FileError)
deriving DecidableEq, Repr

/-- The wording of a failure. -/
def Failure.message : Failure → String
  | .settings path e => s!"failed to load config '{path}': {e.message}"
  | .data path e => s!"failed to load data '{path}': {e.trace}"
  | .readPartial path e => s!"failed to read partial '{path}': {e.message}"
  | .addPartial e => e.message
  | .readTemplate path e => s!"failed to read template '{path}': {e.message}"
  | .render path e => s!"failed to render '{path}': {e.message}"
  | .write e => s!"failed to write output: {e.message}"

/-- What a user is told of a failure. -/
def Failure.report (f : Failure) : String := s!"Error: {f.message}"

/-- The settings that are used if they are there and no others are given. -/
def defaultSettingsFile : String := "stache.toml"

section

variable {m : Type → Type} [Monad m] (dialect : Dialect) (host : Host m)

/-- Fails for a reason if something has failed. -/
def orFail (failure : ε → Failure) : Except ε α → ExceptT Failure m α
  | .ok a => pure a
  | .error e => throw (failure e)

/-- Tells what is done next, if that is asked for. -/
def tell (a : Arguments) (message : String) : ExceptT Failure m Unit :=
  if a.verbose then host.note (message ++ "\n") else pure ()

/-- The file with the settings that are asked for or that lie at hand. -/
def settingsFile? (a : Arguments) : m (Option String) :=
  match a.settings with
  | some file => pure (some file)
  | none => do
    let atHand ← host.isFile defaultSettingsFile
    pure (if atHand then some defaultSettingsFile else none)

/-- The settings, which are the defaults if there is no file with any. -/
def readSettings (a : Arguments) : ExceptT Failure m Settings := do
  match ← ExceptT.lift (settingsFile? host a) with
  | none => return {}
  | some file =>
    tell host a s!"→ Using config {file}"
    orFail (.settings file) (← ExceptT.lift (loadSettings dialect host.read file))

/-- The data with one more partial in it. -/
def readPartial (a : Arguments) (data : Context) (name file : String) :
    ExceptT Failure m Context := do
  tell host a s!"→ Adding partial '{name}' from {file}"
  let body ← orFail (.readPartial file) (← host.read file)
  orFail .addPartial (data.insertPartial name body)

/-- The data that is asked for, with the partials in it. -/
def readData (a : Arguments) : ExceptT Failure m Context := do
  tell host a s!"→ Loading data from {a.data}"
  let data ← orFail (.data a.data) (← ExceptT.lift (loadData dialect host.read a.data))
  a.partials.foldlM (fun data (name, file) => readPartial host a data name file) data

/-- The text that is asked for: the template, filled in with the data. -/
def compose (a : Arguments) : ExceptT Failure m String := do
  let settings ← readSettings dialect host a
  let data ← readData dialect host a
  let template ← orFail (.readTemplate a.template) (← host.read a.template)
  orFail (.render a.template) (render settings template data)

/-- Writes a text where it is asked for. -/
def deliver (a : Arguments) (text : String) : ExceptT Failure m Unit :=
  match a.output with
  | none => do orFail .write (← host.display text)
  | some file => do
    orFail .write (← host.write file text)
    tell host a s!"✓ Wrote {file}"

/-- Fills in a template, and writes the text. -/
def fill (a : Arguments) : ExceptT Failure m Unit := do
  deliver host a (← compose dialect host a)

end

/-- Output that has come to an end before all of it was shown. -/
structure Interruption where
  reason : FileError
  /-- What has been shown. -/
  shown : String
deriving DecidableEq, Repr

/-- A file system with a terminal, by what can be done in each of its states. -/
structure FileSystem (σ : Type) where
  /-- The text in a file. -/
  read : σ → String → Except FileError String
  /-- Whether a path names a file. -/
  isFile : σ → String → Bool
  /-- Writes a text to a file. This may change something even if it fails. -/
  write : σ → String → String → Except FileError Unit × σ
  /-- Shows output, all of it or not. -/
  display : σ → String → Except Interruption Unit

/-- What is left after the command has been run on a file system. -/
structure Outcome (σ : Type) where
  store : σ
  output : String
  messages : String
deriving Repr

/-- A file system as something to run the command on. -/
def FileSystem.host {σ : Type} (fs : FileSystem σ) : Host (StateM (Outcome σ)) where
  read path := return fs.read (← get).store path
  isFile path := return fs.isFile (← get).store path
  write path text := do
    let o ← get
    let (result, store) := fs.write o.store path text
    set { o with store }
    return result
  display text := do
    let o ← get
    match fs.display o.store text with
    | .ok () =>
      set { o with output := o.output ++ text }
      return .ok ()
    | .error interruption =>
      set { o with output := o.output ++ interruption.shown }
      return .error interruption.reason
  note text := modify fun o => { o with messages := o.messages ++ text }

/-- Runs the command on a file system in some state. -/
def fillOn {σ : Type} (dialect : Dialect) (fs : FileSystem σ) (a : Arguments) (store : σ) :
    Except Failure Unit × Outcome σ :=
  ((fill dialect fs.host a).run).run ⟨store, "", ""⟩

/-- Stores, of which each is left as it is if a file cannot be written. All output is shown. -/
def FileSystem.store : FileSystem Store where
  read := Store.read
  isFile := Store.isFile
  write s path text :=
    match s.write path text with
    | .error e => (.error e, s)
    | .ok s' => (.ok (), s')
  display _ _ := .ok ()

/-- Runs the command on a store. -/
def fillStore (a : Arguments) (store : Store) : Except Failure Unit × Outcome Store :=
  fillOn .standard .store a store

/-- The name and version of the command. -/
def versionText : String := "stache 0.1.0\n"

/-- How the command is used, given the settings that the surroundings name. -/
def helpText (surroundings : Option String) : String :=
  "Render mustache templates against JSON or TOML data\n\n" ++
  "Usage: stache [OPTIONS] <DATA> <TEMPLATE>\n\n" ++
  "Arguments:\n" ++
  "  <DATA>      Data file (.json or .toml)\n" ++
  "  <TEMPLATE>  Template file\n\n" ++
  "Options:\n" ++
  "  -o, --output <FILE>        Write the rendered text to FILE instead of stdout\n" ++
  "  -p, --partial <NAME=FILE>  Make a partial available as \x7b\x7b>NAME\x7d\x7d (repeatable)\n" ++
  "  -c, --config <FILE>        Configuration file (defaults to ./stache.toml when present) " ++
  "[env: STACHE_CONFIG=" ++ surroundings.getD "" ++ "]\n" ++
  "  -v, --verbose              \n" ++
  "  -h, --help                 Print help\n" ++
  "  -V, --version              Print version\n"

/-- What a user is told instead of the command being run, given the settings that the
    surroundings name. -/
def Usage.message (surroundings : Option String) : Usage → String
  | .missingArgument => "the following required arguments were not provided"
  | .unknownArgument => "unexpected argument found"
  | .repeated => "an argument cannot be used multiple times"
  | .invalidValue => "a value is required but none was supplied"
  | .unneededValue => "unexpected value for an argument"
  | .badPartial argument => s!"invalid value '{argument}': {badPartialMessage argument}"
  | .help => helpText surroundings
  | .version => versionText

/-- The code that a use of the command ends with. -/
def Usage.exitCode : Usage → Nat
  | .help | .version => 0
  | _ => 2

end Mustache.Command
