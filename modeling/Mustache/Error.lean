import Mustache.Files.Error
import Mustache.Settings
import Mustache.Template.Error

/-!
# Errors

What can go wrong with a template, its data, the settings or the files that these are
kept in, each with the text that a user is shown.
-/

namespace Mustache

/-- Why settings cannot be used. -/
inductive SettingsError where
  /-- Their file cannot be read. -/
  | unreadable (e : FileError)
  /-- They are not written properly. -/
  | malformed (reason : String)
  /-- They say something that makes no sense. -/
  | invalid (fault : Settings.Fault)
deriving DecidableEq, Repr

/-- The text of what is wrong with settings. -/
def SettingsError.message : SettingsError → String
  | .unreadable e => s!"CONFIG_PARSE_ERROR: {e.message}"
  | .malformed reason => s!"CONFIG_PARSE_ERROR: {reason}"
  | .invalid fault => s!"CONFIG_INVALID_VALUE: {fault.field}: {fault.reason}"

/-- What can go wrong. -/
inductive Error where
  | template (e : TemplateError)
  /-- Data that is not written properly. -/
  | dataMalformed (origin reason : String)
  /-- A file of data of a sort that is not known. -/
  | dataUnsupported (path : String)
  /-- A partial for data that has no room for it, as it is no object. -/
  | rootNotObject (name : String)
  | settings (e : SettingsError)
  | file (e : FileError)
deriving DecidableEq, Repr

/-- The text of an error. -/
def Error.message : Error → String
  | .template e => s!"TEMPLATE_ERROR: {e.message}"
  | .dataMalformed origin reason =>
    s!"DATA_PARSE_ERROR: failed to parse '{origin}': {reason}"
  | .dataUnsupported path => s!"DATA_UNSUPPORTED_FORMAT: '{path}' is neither .json nor .toml"
  | .rootNotObject name =>
    s!"DATA_ROOT_NOT_OBJECT: cannot attach partial '{name}' to a non-object root context"
  | .settings e => e.message
  | .file e => s!"IO_ERROR: {e.message}"

/-- The text of an error followed by its cause. That of a file is given once more. -/
def Error.trace (e : Error) : String :=
  match e with
  | .file cause => s!"{e.message}: {cause.message}"
  | _ => e.message

end Mustache
