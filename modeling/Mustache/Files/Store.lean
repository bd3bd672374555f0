import Mustache.Files.Error
import Mustache.Files.Path

/-!
# A store of files

A *store* is what can be seen of a file system from one of its directories, its *own*:
which files and directories there are, and what the files hold. A path is followed name by
name (`Store.locate`), from the root if it starts with a slash and else from the own
directory; each name but the last must be that of a directory.

* `Store.fresh`: an own directory with nothing in it, on a system as it usually is;
* `Store.read`, `Store.write`: the contents of a file.
-/

namespace Mustache

/-- What a file holds: a text, or bytes that are none. -/
inductive Content where
  | text (s : String)
  | noText
deriving DecidableEq, Repr

/-- What some bytes hold. -/
def Content.ofBytes (bytes : ByteArray) : Content :=
  match String.fromUTF8? bytes with
  | some s => .text s
  | none => .noText

/-- What a path may name. -/
inductive Node where
  | file (content : Content)
  | directory
  /-- What is always empty, and takes all that is written to it. -/
  | sink
deriving DecidableEq, Repr

/-- A directory, given by the names that lead to it, the last first: from the own
    directory, or from the root, which counts as a name. -/
abbrev Place := List String

namespace Place

/-- The own directory. -/
def own : Place := []

/-- The directory that all others are in. -/
def root : Place := ["/"]

/-- The directory above another. The root is above itself, and what is above the own
    directory has two points for each step up. -/
def parent (place : Place) : Place :=
  match place with
  | [] => [".."]
  | name :: back =>
    if place = root then root
    else if name = ".." then ".." :: place
    else back

/-- The directory that a path starts from. -/
def start (path : String) : Place :=
  if path.startsWith "/" then root else own

end Place

/-- Files and directories, by the names that lead to them. -/
structure Store where
  nodes : List (List String × Node)
deriving Repr, Inhabited

namespace Store

/-- The names of the directories in the root of a system. -/
def systemNames : List String :=
  ["bin", "dev", "etc", "home", "lib", "proc", "root", "sys", "tmp", "usr", "var"]

/-- A store with nothing in its own directory. -/
def fresh : Store :=
  ⟨(["/", "dev", "null"], .sink) :: systemNames.map fun name => (["/", name], .directory)⟩

/-- The store with a file or directory under the given names. -/
def put (s : Store) (names : List String) (node : Node) : Store :=
  ⟨(names, node) :: s.nodes.filter (·.1 != names)⟩

/-- The store with a file or directory, and with the directories that lead to it. -/
def add (s : Store) (path : String) (node : Node) : Store :=
  let names := (Path.names path).filter (!Path.isHere ·)
  let parents := (List.range names.length).drop 1 |>.map names.take
  (parents.foldl (fun s names => s.put names .directory) s).put names node

/-- What a directory holds under a name. -/
def child? (s : Store) (place : Place) (name : String) : Option Node :=
  s.nodes.lookup (name :: place).reverse

/-- What some names lead to, and the place of it if it is a directory. -/
def locate (s : Store) : List String → Place → Except FileError (Node × Place)
  | [], place => .ok (.directory, place)
  | name :: rest, place =>
    if Path.isHere name then s.locate rest place
    else if name = ".." then s.locate rest place.parent
    else if 255 < name.utf8ByteSize then .error .nameTooLong
    else
      match s.child? place name with
      | none => .error .notFound
      | some .directory => s.locate rest (name :: place)
      | some node => if rest.isEmpty then .ok (node, place) else .error .notADirectory

/-- What is wrong with a path in itself. -/
def pathError? (path : String) : Option FileError :=
  if path.toList.contains '\x00' then some .badPath
  else if path.isEmpty then some .notFound
  else if 4096 ≤ path.utf8ByteSize then some .nameTooLong
  else none

/-- What a path names. -/
def node? (s : Store) (path : String) : Except FileError Node :=
  match pathError? path with
  | some e => .error e
  | none => (s.locate (Path.names path) (.start path)).map (·.1)

/-- Whether a path names a file. -/
def isFile (s : Store) (path : String) : Bool :=
  match s.node? path with
  | .ok (.file _) => true
  | _ => false

/-- The text in a file. -/
def read (s : Store) (path : String) : Except FileError String :=
  match s.node? path with
  | .error e => .error e
  | .ok .directory => .error .isADirectory
  | .ok .sink => .ok ""
  | .ok (.file .noText) => .error .notText
  | .ok (.file (.text text)) => .ok text

/-- The store with a text in a file, which is made if it is not there. The directory that
    it lies in must be there already. -/
def write (s : Store) (path text : String) : Except FileError Store :=
  match pathError? path with
  | some e => .error e
  | none =>
    match (Path.names path).reverse.dropWhile (· == "") with
    | [] => .error .isADirectory
    | last :: back =>
      if last = "." ∨ last = ".." then
        (s.locate (Path.names path) (.start path)).bind fun _ => .error .isADirectory
      else
        match s.locate back.reverse (.start path) with
        | .error e => .error e
        | .ok (.directory, place) =>
          if path.endsWith "/" then .error .isADirectory
          else if 255 < last.utf8ByteSize then .error .nameTooLong
          else
            match s.child? place last with
            | some .directory => .error .isADirectory
            | some .sink => .ok s
            | _ => .ok (s.put (last :: place).reverse (.file (.text text)))
        | .ok _ => .error .notADirectory

end Store

end Mustache
