/-!
# Paths

A path names a file by the directories that lead to it, with slashes in between.
Empty names and single points lead nowhere.
-/

namespace Mustache.Path

/-- The names on a path, as they are written. -/
def names (path : String) : List String :=
  (path.toList.splitOn '/').map String.ofList

/-- Whether a name stands for the directory that it is looked up in. -/
def isHere (name : String) : Bool :=
  name == "" || name == "."

/-- The last name on a path that leads anywhere, unless it leads back up. -/
def lastName? (path : String) : Option String :=
  match (names path).reverse.find? (!isHere ·) with
  | some ".." => none
  | name => name

/-- What follows the last point in the name of a file, which must not start with it. -/
def extension? (path : String) : Option String := do
  let name := (← lastName? path).toList
  let stem := (name.reverse.dropWhile (· != '.')).reverse
  if stem.length ≤ 1 then failure
  return String.ofList (name.drop stem.length)

end Mustache.Path
