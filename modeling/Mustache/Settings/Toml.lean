import Mustache.Settings
import Mustache.Toml.Text

/-!
# Settings written in TOML

A user writes settings in a TOML document, in a table named `render` (`Settings.read?`).
Whatever is left out has its default, and what is not known is passed over. A record may
also be written as an array of its fields in order (`fields?`).
-/

namespace Mustache

namespace Settings

/-- The fields of a record with the given names: by name in a table, in order in an array.
    A date is a record that has none of them. -/
def fields? (names : List String) : Toml.Value → Option (List (Option Toml.Value))
  | .table entries => some (names.map fun name => entries.lookup name)
  | .array items => some (names.zipIdx.map fun (_, i) => items[i]?)
  | .datetime _ => some (names.map fun _ => none)
  | _ => none

/-- A pair of delimiters, which must both be there. -/
def delimitersOf? (v : Toml.Value) : Option Delimiters :=
  match fields? ["open", "close"] v with
  | some [some (.string opening), some (.string closing)] =>
    some ⟨opening.toList, closing.toList⟩
  | _ => none

/-- A number that is not negative. -/
def countOf? : Toml.Value → Option Nat
  | .integer i => if 0 ≤ i then some i.toInt.toNat else none
  | _ => none

/-- Whether something is the case. -/
def flagOf? : Toml.Value → Option Bool
  | .bool b => some b
  | _ => none

/-- A field that may be missing, and then has its default. -/
def orDefault (read? : Toml.Value → Option α) (default : α) : Option Toml.Value → Option α
  | none => some default
  | some v => read? v

/-- The settings in the table of their own. -/
def ofValue? (v : Toml.Value) : Option Settings := do
  match ← fields? ["delimiters", "max_partial_depth", "escape_html"] v with
  | [delimiters, depth, escape] =>
    let defaults : Settings := {}
    return {
      delimiters := ← orDefault delimitersOf? defaults.delimiters delimiters
      maxPartialDepth := ← orDefault countOf? defaults.maxPartialDepth depth
      escapeHtml := ← orDefault flagOf? defaults.escapeHtml escape }
  | _ => none

/-- The settings in a document, as they stand there. -/
def read? (text : String) : Option Settings := do
  orDefault ofValue? {} ((← Toml.written? text).lookup "render")

end Settings

end Mustache
