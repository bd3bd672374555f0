import Mustache.Context.Basic
import Mustache.Text.Digits

/-!
# JSON values

A JSON value, and the context that it stands for (`Value.toContext`). Numbers come in
two sorts: whole ones, which stand for integers if they fit into 64 bits, and real ones,
which never do.
-/

namespace Mustache.Json

/-- A number. -/
inductive Number where
  /-- A number written without a fraction and an exponent. -/
  | whole (n : Int)
  /-- Any other number, as near as a floating-point number comes to it. -/
  | real (x : Float) (finite : x.isFinite = true)

/-- The value of a number: an integer if it is whole and fits into 64 bits, and a
    floating-point number otherwise. -/
def Number.toScalar : Number → Scalar
  | .whole n =>
    match Text.int64Of? n with
    | some i => .integer i
    | none => .float (Float.ofInt n)
  | .real x _ => .float x

/-- A JSON value. -/
inductive Value where
  | null
  | bool (b : Bool)
  | number (n : Number)
  | string (s : String)
  | array (items : List Value)
  | object (entries : List (String × Value))

namespace Value

instance : Inhabited Value := ⟨.null⟩

mutual
/-- The context that a value stands for. -/
def toContext : Value → Context
  | .null => .scalar .null
  | .bool b => .scalar (.bool b)
  | .number n => .scalar n.toScalar
  | .string s => .scalar (.string s)
  | .array items => .array (toContexts items)
  | .object entries => .object (toEntries entries)

/-- The contexts that some values stand for. -/
def toContexts : List Value → List Context
  | [] => []
  | v :: vs => v.toContext :: toContexts vs

/-- The entries that those of an object stand for. -/
def toEntries : List (String × Value) → List (String × Context)
  | [] => []
  | (key, v) :: es => (key, v.toContext) :: toEntries es
end

end Value

end Mustache.Json
