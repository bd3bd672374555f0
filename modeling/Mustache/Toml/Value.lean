import Mustache.Context.Basic
import Mustache.Toml.Datetime

/-!
# TOML values

A TOML value, and the context that it stands for (`Value.toContext`). A date or time
stands for its text, which is left open. The entries of a table come in the order in which
they are listed.
-/

namespace Mustache.Toml

/-- A TOML value. -/
inductive Value where
  | string (s : String)
  | integer (i : Int64)
  | float (x : Float)
  | bool (b : Bool)
  | datetime (d : Datetime)
  | array (items : List Value)
  | table (entries : List (String × Value))

namespace Value

instance : Inhabited Value := ⟨.table []⟩

section

variable (dateText : Datetime → String)

mutual
/-- The context that a value stands for, given the texts of dates. -/
def toContext : Value → Context
  | .string s => .scalar (.string s)
  | .integer i => .scalar (.integer i)
  | .float x => .scalar (.float x)
  | .bool b => .scalar (.bool b)
  | .datetime d => .scalar (.string (dateText d))
  | .array items => .array (toContexts items)
  | .table entries => .object (toEntries entries)

/-- The contexts that some values stand for. -/
def toContexts : List Value → List Context
  | [] => []
  | v :: vs => v.toContext :: toContexts vs

/-- The entries that those of a table stand for. -/
def toEntries : List (String × Value) → List (String × Context)
  | [] => []
  | (key, v) :: es => (key, v.toContext) :: toEntries es
end

end

end Value

end Mustache.Toml
