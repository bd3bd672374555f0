import Mustache.Decimal.Float
import Mustache.Entries

/-!
# Contexts

A *context* is the data that a template is rendered with: an object with named
entries, an array, or a single value (`Scalar`).

* `Context.truthy`: whether a section about the context is shown;
* `Context.text`: the text that a variable is replaced by;
* `Context.get?`, `Context.item?`: what an object or an array holds.

Two contexts are equal if they are built alike from equal values (`Context.beq`). As
it is with floating-point numbers, a value that is not a number differs from itself.
-/

namespace Mustache

/-- A single value. -/
inductive Scalar where
  | null
  | bool (b : Bool)
  | integer (i : Int64)
  | float (x : Float)
  | string (s : String)
deriving BEq, Inhabited

namespace Scalar

/-- Whether a value counts as true: it is neither absent, nor false, nor zero, nor not a
    number, nor the empty text. -/
def truthy : Scalar → Bool
  | .null => false
  | .bool b => b
  | .integer i => i != 0
  | .float x => x != 0.0 && !x.isNaN
  | .string s => !s.isEmpty

/-- The text of a value. -/
def text : Scalar → String
  | .null => ""
  | .bool b => if b then "true" else "false"
  | .integer i => toString i
  | .float x => floatText x
  | .string s => s

end Scalar

/-- The data that a template is rendered with. -/
inductive Context where
  | object (entries : List (String × Context))
  | array (items : List Context)
  | scalar (value : Scalar)

namespace Context

instance : Inhabited Context := ⟨.scalar .null⟩

/-- The absent value. -/
def null : Context := .scalar .null

/-- A text. -/
def string (s : String) : Context := .scalar (.string s)

/-- The object without entries. -/
def emptyObject : Context := .object []

mutual
/-- Whether two contexts are built alike from equal values. -/
def beq : Context → Context → Bool
  | .object a, .object b => beqEntries a b
  | .array a, .array b => beqItems a b
  | .scalar a, .scalar b => a == b
  | _, _ => false

/-- Whether two arrays hold equal items. -/
def beqItems : List Context → List Context → Bool
  | [], [] => true
  | a :: as, b :: bs => beq a b && beqItems as bs
  | _, _ => false

/-- Whether two objects hold equal entries. -/
def beqEntries : List (String × Context) → List (String × Context) → Bool
  | [], [] => true
  | (k, a) :: as, (l, b) :: bs => k == l && beq a b && beqEntries as bs
  | _, _ => false
end

instance : BEq Context := ⟨beq⟩

/-- The entry of an object. -/
def get? (key : String) : Context → Option Context
  | .object entries => Entries.get? entries key
  | _ => none

/-- The item of an array. -/
def item? (index : Nat) : Context → Option Context
  | .array items => items[index]?
  | _ => none

/-- The entries of an object. -/
def entries? : Context → Option (Entries Context)
  | .object entries => some entries
  | _ => none

/-- The items of an array. -/
def items? : Context → Option (List Context)
  | .array items => some items
  | _ => none

/-- The text, of a context that is one. -/
def string? : Context → Option String
  | .scalar (.string s) => some s
  | _ => none

/-- The number of entries or items. -/
def size? : Context → Option Nat
  | .object entries => some entries.length
  | .array items => some items.length
  | .scalar _ => none

/-- Whether the context is an object or an array that holds nothing. -/
def isEmpty (c : Context) : Bool :=
  c.size? == some 0

/-- Whether the context counts as true. Every object does, and so does every array that
    is not empty. -/
def truthy : Context → Bool
  | .object _ => true
  | .array items => !items.isEmpty
  | .scalar value => value.truthy

/-- The text of the context, empty for objects and arrays. -/
def text : Context → String
  | .scalar value => value.text
  | _ => ""

end Context

end Mustache
