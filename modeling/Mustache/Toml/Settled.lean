import Mustache.Entries
import Mustache.Toml.Value

/-!
# Dates written as tables

In data, a date may also be written as a table: the key of its first entry is the
`dateMark`, and the value there is a string that gives the date. Whatever else is in such a
table is not looked at.

A value is *settled* when all tables in it that are dates have been taken for them, and the
entries of the other tables are in order of their keys (`Value.settle?`). A mark with
something else than the text of a date cannot be settled.
-/

namespace Mustache.Toml

/-- The key that makes a table a date if it comes first. -/
def dateMark : String := "$__toml_private_datetime"

namespace Value

/-- The date that the value next to a mark gives. -/
def marked? : Value → Option Value
  | .string s => (Datetime.ofText? s).map .datetime
  | _ => none

mutual
/-- The value, settled. -/
def settle? : Value → Option Value
  | .array items => (settleItems? items).map .array
  | .table ((key, v) :: rest) =>
    if key = dateMark then v.marked?
    else do return .table (Entries.ofList ((key, ← v.settle?) :: (← settleEntries? rest)))
  | v => some v

/-- Some values, settled. -/
def settleItems? : List Value → Option (List Value)
  | [] => some []
  | v :: vs => do return (← v.settle?) :: (← settleItems? vs)

/-- Some entries with their values settled. -/
def settleEntries? : List (String × Value) → Option (List (String × Value))
  | [] => some []
  | (key, v) :: es => do return (key, ← v.settle?) :: (← settleEntries? es)
end

end Value

end Mustache.Toml
