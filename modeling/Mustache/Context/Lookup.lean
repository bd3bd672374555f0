import Mustache.Context.Basic

/-!
# Looking up a key

Sections put contexts in *scope*, one inside the other. A key is a *path*, the names
of entries separated by points, and is looked up in the innermost scope first
(`resolve`). A scope answers only for the whole path: one that has its first names
but not the others is passed over. A point alone stands for the innermost scope
itself.
-/

namespace Mustache

namespace Context

/-- The names on a path, which may be empty. -/
def segments (path : List Char) : List String :=
  (path.splitOn '.').map String.ofList

/-- What is reached from a context along some names. -/
def follow? : List String → Context → Option Context
  | [], c => some c
  | name :: names, c => (c.get? name).bind (follow? names)

/-- What a path stands for in some scopes, the innermost first. -/
def resolve (scopes : List Context) (path : List Char) : Option Context :=
  if path = ['.'] then scopes.head?
  else scopes.findSome? (follow? (segments path))

/-- The text that a variable is replaced by. What is not found has none. -/
def resolveText (scopes : List Context) (path : List Char) : String :=
  match resolve scopes path with
  | some c => c.text
  | none => ""

end Context

end Mustache
