import Mustache.Text.Blank

/-!
# Arguments of the command

The command takes two files, one with data and one with a template, and options. Its
arguments are read one by one (`Reading.take`): each is an option, a value of the option
before it, or a file. An option may have its value in the same argument, and options of
one letter may share an argument.

A value that is an argument of its own is looked at only when the next one is
(`Reading.settle`), so of two faults it is not always the first that is reported.
-/

namespace Mustache.Command

/-- What the arguments ask for. -/
structure Arguments where
  data : String
  template : String
  /-- Where the output goes, if not to the terminal. -/
  output : Option String
  /-- The names of partials and the files that they are in. -/
  partials : List (String × String)
  settings : Option String
  verbose : Bool
deriving DecidableEq, Repr

/-- Why the command is not run. -/
inductive Usage where
  /-- A file is not given. -/
  | missingArgument
  /-- An option that is not known, or one file too many. -/
  | unknownArgument
  /-- An option that is given twice. -/
  | repeated
  /-- An option without its value, or a file without a name. -/
  | invalidValue
  /-- A value for an option that takes none. -/
  | unneededValue
  /-- A partial that is not written as a name and a file. -/
  | badPartial (argument : String)
  /-- Help is asked for. -/
  | help
  /-- The version is asked for. -/
  | version
deriving DecidableEq, Repr

/-- What is wrong with a partial. -/
def badPartialMessage (argument : String) : String :=
  s!"expected NAME=FILE, got '{argument}'"

/-- The name of a partial and its file, which an equals sign separates. Neither may be
    empty; blanks around the name are dropped. -/
def partialOf (argument : String) : Except Usage (String × String) :=
  let name := argument.toList.takeWhile (· != '=')
  match argument.toList.drop name.length with
  | _ :: c :: file =>
    let name := Text.trim name
    if name.isEmpty then .error (.badPartial argument)
    else .ok (String.ofList name, String.ofList (c :: file))
  | _ => .error (.badPartial argument)

/-- Something that has a value. -/
inductive Slot where
  | data
  | template
  | output
  | partials
  | settings
deriving DecidableEq, Repr

/-- What an option is for. -/
inductive Meaning where
  | value (slot : Slot)
  | verbose
  | help
  | version
deriving DecidableEq, Repr

/-- The options of one letter. -/
def ofLetter? : Char → Option Meaning
  | 'o' => some (.value .output)
  | 'p' => some (.value .partials)
  | 'c' => some (.value .settings)
  | 'v' => some .verbose
  | 'h' => some .help
  | 'V' => some .version
  | _ => none

/-- The options that have a name. -/
def ofName? : String → Option Meaning
  | "output" => some (.value .output)
  | "partial" => some (.value .partials)
  | "config" => some (.value .settings)
  | "verbose" => some .verbose
  | "help" => some .help
  | "version" => some .version
  | _ => none

/-- The arguments as far as they have been read. -/
structure Reading where
  data : Option String := none
  template : Option String := none
  output : Option String := none
  /-- The last one first. -/
  partials : List (String × String) := []
  settings : Option String := none
  verbose : Bool := false
  /-- The slot read last, and its value if it has been read as well. -/
  pending : Option (Slot × Option String) := none
  /-- How many files have been read. -/
  files : Nat := 0
  /-- Whether all that follows is a file. -/
  filesOnly : Bool := false

namespace Reading

/-- A slot that holds one path: it must be given once, and not be empty. -/
def path (old : Option String) (value : String) : Except Usage (Option String) :=
  if old.isSome then .error .repeated
  else if value.isEmpty then .error .invalidValue
  else .ok (some value)

/-- Gives a slot its value. -/
def assign (r : Reading) (slot : Slot) (value : String) : Except Usage Reading :=
  match slot with
  | .data => (path r.data value).map fun v => { r with data := v }
  | .template => (path r.template value).map fun v => { r with template := v }
  | .output => (path r.output value).map fun v => { r with output := v }
  | .settings => (path r.settings value).map fun v => { r with settings := v }
  | .partials => (partialOf value).map fun p => { r with partials := p :: r.partials }

/-- Looks at the value read last. -/
def settle (r : Reading) : Except Usage Reading :=
  match r.pending with
  | none => .ok r
  | some (_, none) => .error .invalidValue
  | some (slot, some value) => { r with pending := none }.assign slot value

/-- Reads an option that takes no value. -/
def takeFlag (r : Reading) (meaning : Meaning) : Except Usage Reading := do
  let r ← r.settle
  match meaning with
  | .help => .error .help
  | .version => .error .version
  | _ => if r.verbose then .error .repeated else .ok { r with verbose := true }

/-- Reads an option that takes a value, and the value if it is in the same argument. -/
def takeOption (r : Reading) (slot : Slot) (value : Option String) : Except Usage Reading := do
  let r ← r.settle
  match value with
  | some value => r.assign slot value
  | none => .ok { r with pending := some (slot, none) }

/-- Reads an option given by name, of which the value may follow an equals sign. -/
def takeNamed (r : Reading) (text : List Char) : Except Usage Reading :=
  let name := text.takeWhile (· != '=')
  let value :=
    match text.drop name.length with
    | [] => none
    | _ :: value => some (String.ofList value)
  match ofName? (String.ofList name) with
  | none => .error .unknownArgument
  | some (.value slot) => r.takeOption slot value
  | some meaning => if value.isSome then .error .unneededValue else r.takeFlag meaning

/-- Reads options of one letter, of which the last may have its value right behind it or
    behind an equals sign. -/
def takeLetters (r : Reading) : List Char → Except Usage Reading
  | [] => .ok r
  | c :: rest =>
    match ofLetter? c with
    | none => .error .unknownArgument
    | some (.value slot) =>
      match rest with
      | [] => r.takeOption slot none
      | '=' :: value => r.takeOption slot (some (String.ofList value))
      | value => r.takeOption slot (some (String.ofList value))
    | some meaning => (r.takeFlag meaning).bind (·.takeLetters rest)

/-- Reads the name of a file. -/
def takeFile (r : Reading) (file : String) : Except Usage Reading :=
  match r.files with
  | 0 => r.settle.map fun r => { r with pending := some (.data, some file), files := 1 }
  | 1 => r.settle.map fun r => { r with pending := some (.template, some file), files := 2 }
  | _ => .error .unknownArgument

/-- Reads an argument that is no option: a value that is waited for, or a file. -/
def takePlain (r : Reading) (argument : String) : Except Usage Reading :=
  match r.pending with
  | some (slot, none) => .ok { r with pending := some (slot, some argument) }
  | _ => r.takeFile argument

/-- Reads an argument. Two hyphens alone say that only files follow; one alone is the name
    of a file. -/
def take (r : Reading) (argument : String) : Except Usage Reading :=
  if r.filesOnly then r.takeFile argument
  else
    match argument.toList with
    | ['-', '-'] => .ok { r with filesOnly := true }
    | '-' :: '-' :: text => r.takeNamed text
    | '-' :: c :: letters => r.takeLetters (c :: letters)
    | _ => r.takePlain argument

/-- What has been read, once there is nothing more. Settings that are not given may be
    named by the surroundings. -/
def finish (r : Reading) (surroundings : Option String) : Except Usage Arguments := do
  let r ← r.settle
  let r ←
    match r.settings, surroundings with
    | none, some file => r.assign .settings file
    | _, _ => .ok r
  match r.data, r.template with
  | some data, some template =>
    .ok {
      data, template, output := r.output, partials := r.partials.reverse,
      settings := r.settings, verbose := r.verbose }
  | _, _ => .error .missingArgument

end Reading

/-- What some arguments ask for, given the settings that the surroundings name. -/
def Arguments.parse (arguments : List String) (surroundings : Option String) :
    Except Usage Arguments :=
  (arguments.foldlM Reading.take {}).bind (·.finish surroundings)

end Mustache.Command
