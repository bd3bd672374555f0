import Mustache.Json.Text
import Mustache.Settings.Toml
import Mustache.Toml.Text

/-!
# Dialects

Data and settings come as texts in JSON and TOML. What such a text says, or why it says
nothing, is left open wherever nothing depends on it (`Dialect`). The dialect that the
command is run with is `Dialect.standard`.
-/

namespace Mustache

/-- How texts in JSON and TOML are understood. What cannot be understood is refused for a
    reason. -/
structure Dialect where
  /-- The JSON value that a text is written for. -/
  json : String → Except String Json.Value
  /-- The entries of the table that a TOML document is written for. -/
  toml : String → Except String (Entries Toml.Value)
  /-- The settings in a TOML document, as they stand there. -/
  settings : String → Except String Settings
  /-- The text that a date in data stands for. -/
  dateText : Toml.Datetime → String

namespace Dialect

/-- A result, or a reason why there is none. -/
def orRefuse (reason : String) : Option α → Except String α
  | some a => .ok a
  | none => .error reason

@[simp] theorem orRefuse_eq_ok_iff {reason : String} {a : α} {o : Option α} :
    orRefuse reason o = .ok a ↔ o = some a := by
  cases o <;> simp [orRefuse]

/-- JSON and TOML as they are commonly understood, with short reasons. -/
def standard : Dialect where
  json text := orRefuse "not a JSON text" (Json.Value.parse? text)
  toml text := orRefuse "not a TOML document" (Toml.parse? text)
  settings text := orRefuse "not a TOML document with settings" (Settings.read? text)
  dateText := Toml.Datetime.text

end Dialect

end Mustache
