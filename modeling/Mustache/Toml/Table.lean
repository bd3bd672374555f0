import Mustache.Toml.Value

/-!
# Building up tables

The tables of a TOML document are written piece by piece: by headers, by keys with
points in them, and by the entries under each header. A table that is still being
written (`Node`) remembers how it came about (`Origin`), as that decides who may add
to it: a header may define a table once, unless the table is only there because of
tables inside it; and keys with points may add only to tables that such keys made.
-/

namespace Mustache.Toml

/-- How a table came about. -/
inductive Origin where
  /-- By a header of its own, or as the document itself. -/
  | header
  /-- By the header of a table inside it. -/
  | inner
  /-- By a key with points in it. -/
  | dotted
deriving DecidableEq, Repr

/-- What a key of a table stands for while the table is being written. -/
inductive Node where
  /-- A value, which is complete. -/
  | value (v : Value)
  /-- A table, with its entries in order. -/
  | table (origin : Origin) (entries : List (String × Node))
  /-- An array of tables, each written under a header of its own, the last one first. -/
  | tables (items : List Node)

/-- A table that is being written. -/
structure Table where
  origin : Origin
  entries : List (String × Node)

namespace Table

/-- Some entries with a key given a meaning, where the key is or else at the end. -/
def setEntry (key : String) (node : Node) : List (String × Node) → List (String × Node)
  | [] => [(key, node)]
  | entry :: rest =>
    if entry.1 = key then (key, node) :: rest else entry :: setEntry key node rest

/-- A table with nothing in it. -/
def empty (origin : Origin) : Table := ⟨origin, []⟩

/-- The table as what a key stands for. -/
def toNode (t : Table) : Node := .table t.origin t.entries

/-- What a key stands for. -/
def get? (t : Table) (key : String) : Option Node :=
  t.entries.lookup key

/-- The table with a key given a meaning. -/
def put (t : Table) (key : String) (node : Node) : Table :=
  { t with entries := setEntry key node t.entries }

/-- The table without a key. -/
def erase (t : Table) (key : String) : Table :=
  { t with entries := t.entries.filter (·.1 != key) }

/-- Changes the table that a path leads to, which may be refused. Tables that are
    missing on the way are made. In an array of tables the way leads on in the last. -/
def updateAt (dotted : Bool) (change : Table → Option Table) : List String → Table → Option Table
  | [], t => change t
  | key :: path, t =>
    match t.get? key with
    | none => do
      let made := empty (if dotted then .dotted else .inner)
      return t.put key (← updateAt dotted change path made).toNode
    | some (.value _) => none
    | some (.table origin entries) => do
      if dotted && origin = .header then failure
      return t.put key (← updateAt dotted change path ⟨origin, entries⟩).toNode
    | some (.tables (.table origin entries :: earlier)) => do
      let last ← updateAt dotted change path ⟨origin, entries⟩
      return t.put key (.tables (last.toNode :: earlier))
    | some (.tables _) => none

/-- Adds an entry under a key with points in it, given as the names before the last one
    and the last one. No entry may be there yet. -/
def addEntry (t : Table) (path : List String) (key : String) (v : Value) : Option Table :=
  t.updateAt true (fun t =>
    -- A path must lead to a table made by such paths, and no path to any other.
    if (t.origin == .dotted) == path.isEmpty then none
    else if (t.get? key).isSome then none
    else some (t.put key (.value v))) path

/-- Adds entries one by one. -/
def addEntries (t : Table) (entries : List (List String × String × Value)) : Option Table :=
  entries.foldlM (fun t (path, key, v) => t.addEntry path key v) t

/-- Adds the table under a header, with its entries. It may be there already if it has
    no header yet. -/
def addTable (t : Table) (path : List String) (key : String)
    (entries : List (List String × String × Value)) : Option Table :=
  t.updateAt false (fun parent => do
    let old ←
      match parent.get? key with
      | none => some []
      | some (.table .inner old) => some old
      | some _ => none
    return (parent.erase key).put key (← addEntries ⟨.header, old⟩ entries).toNode) path

/-- Adds one more table to the array of tables under a header, with its entries. -/
def addItem (t : Table) (path : List String) (key : String)
    (entries : List (List String × String × Value)) : Option Table :=
  t.updateAt false (fun parent => do
    let earlier ←
      match parent.get? key with
      | none => some []
      | some (.tables earlier) => some earlier
      | some _ => none
    let item ← addEntries (empty .header) entries
    return parent.put key (.tables (item.toNode :: earlier))) path

end Table

namespace Node

mutual
/-- The value that is written down in the end. -/
def toValue : Node → Value
  | .value v => v
  | .table _ entries => .table (toEntries entries)
  | .tables items => .array (toValues items).reverse

/-- The values that are written down in the end. -/
def toValues : List Node → List Value
  | [] => []
  | n :: ns => n.toValue :: toValues ns

/-- The entries of a table that is written down in the end. -/
def toEntries : List (String × Node) → List (String × Value)
  | [] => []
  | (key, n) :: es => (key, n.toValue) :: toEntries es
end

end Node

end Mustache.Toml
