import Mustache.Dialect
import Mustache.Error
import Mustache.Files.Store

/-!
# Data and settings

The data for a template comes from a text in one of two formats (`DataFormat.parse`), the
name of the file telling which (`DataFormat.ofPath?`). Partials are put into the data as
texts, each under its name (`insertPartial`). Settings come from a text as well
(`Settings.parse`).
-/

namespace Mustache

/-- The formats that data may be written in. -/
inductive DataFormat where
  | json
  | toml
deriving DecidableEq, Repr

namespace DataFormat

/-- The format of a file, by the end of its name, which may be written in either case. -/
def ofPath? (path : String) : Option DataFormat :=
  match (Path.extension? path).map (·.toLower) with
  | some "json" => some .json
  | some "toml" => some .toml
  | _ => none

/-- The data that a text from the given place is written for. -/
def parse (format : DataFormat) (dialect : Dialect) (origin text : String) :
    Except Error Context :=
  let data :=
    match format with
    | .json => (dialect.json text).map Json.Value.toContext
    | .toml =>
      (dialect.toml text).map fun entries =>
        (Toml.Value.table entries).toContext dialect.dateText
  data.mapError (.dataMalformed origin)

end DataFormat

namespace Context

/-- The data with a partial in it. It must be an object, where the partial takes the place
    of what was there under its name. -/
def insertPartial (name body : String) : Context → Except Error Context
  | .object entries => .ok (.object (Entries.insert name (.string body) entries))
  | _ => .error (.rootNotObject name)

end Context

/-- The settings in a document. They must be usable. -/
def Settings.parse (dialect : Dialect) (text : String) : Except SettingsError Settings :=
  match dialect.settings text with
  | .error reason => .error (.malformed reason)
  | .ok s =>
    match s.fault? with
    | some fault => .error (.invalid fault)
    | none => .ok s

section

variable [Monad m] (dialect : Dialect) (read : String → m (Except FileError String))

/-- The data in a file, given how files are read. -/
def loadData (path : String) : m (Except Error Context) :=
  match DataFormat.ofPath? path with
  | none => return .error (.dataUnsupported path)
  | some format => do
    match ← read path with
    | .error e => return .error (.file e)
    | .ok text => return format.parse dialect path text

/-- The settings in a file, given how files are read. -/
def loadSettings (path : String) : m (Except SettingsError Settings) := do
  match ← read path with
  | .error e => return .error (.unreadable e)
  | .ok text => return Settings.parse dialect text

end

end Mustache
