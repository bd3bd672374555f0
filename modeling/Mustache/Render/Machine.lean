import Mustache.Context.Lookup
import Mustache.Escape
import Mustache.Settings
import Mustache.Template.Section

/-!
# Rendering, token by token

A template is rendered by a machine that goes through its tokens with a *cursor*. What
a section has put in scope is recorded on a stack of *opened* sections (`Frame`), so
that its closing tag can undo exactly that, or take the cursor back to the start of
the section for the next item of an array (`State.close`). A section that is not shown
is passed over (`State.skip`).

One step of the machine deals with one token (`step`). How the body of a partial is
rendered is left open (`Expansion`).
-/

namespace Mustache.Render

open Template

/-- What an opened section has put in scope. -/
inductive Frame where
  /-- An object, which is one more scope. -/
  | scope
  /-- The items of an array, one after the other. The section starts again at the index
      `start` for each item, `remaining` times in all, the current one included. -/
  | loop (items : Array Context) (start remaining : Nat)
  /-- Nothing. -/
  | pass

/-- A section that is open. -/
structure Opened where
  name : List Char
  frame : Frame

/-- The state of the machine. -/
structure State where
  /-- The index of the token that comes next. -/
  cursor : Nat
  /-- The contexts in scope, the innermost first. -/
  scopes : List Context
  /-- The sections that are open, the innermost first. -/
  opened : List Opened
  /-- The indentation of the partial that comes next, if it stands alone on a line. -/
  indentation : Option (List Char)
  output : String

/-- How the body of a partial of a given name is rendered in some scopes. -/
abbrev Expansion := List Char → List Char → List Context → Except TemplateError String

namespace State

/-- The machine at the first token. -/
def start (scopes : List Context) : State := ⟨0, scopes, [], none, ""⟩

/-- Moves on to the next token with some more output. -/
def write (s : State) (text : String) : State :=
  { s with output := s.output ++ text, cursor := s.cursor + 1 }

/-- Moves into a section. -/
def enter (s : State) (name : List Char) (frame : Frame) (scopes : List Context) : State :=
  { s with opened := ⟨name, frame⟩ :: s.opened, scopes, cursor := s.cursor + 1 }

/-- Moves past the section that the given token opens. -/
def skip (s : State) (tokens : Array Token) (token : Token) : Except TemplateError State :=
  match Sections.closing? tokens s.cursor with
  | none => .error (.unclosedSection token.value token.line)
  | some i => .ok { s with cursor := i + 1 }

/-- Opens a section: it is passed over if its key has no value or a false one, and
    otherwise shown once, or once for each item of an array. -/
def openSection (s : State) (tokens : Array Token) (token : Token) :
    Except TemplateError State :=
  match Context.resolve s.scopes token.value with
  | none => s.skip tokens token
  | some (.object entries) => .ok (s.enter token.value .scope (.object entries :: s.scopes))
  | some (.array []) => s.skip tokens token
  | some (.array (first :: others)) =>
    let items := (first :: others).toArray
    .ok (s.enter token.value (.loop items (s.cursor + 1) items.size) (first :: s.scopes))
  | some (.scalar value) =>
    if value.truthy then .ok (s.enter token.value .pass s.scopes) else s.skip tokens token

/-- Opens an inverted section: it is shown iff its key has no value or a false one. -/
def openInverse (s : State) (tokens : Array Token) (token : Token) :
    Except TemplateError State :=
  if (Context.resolve s.scopes token.value).any (·.truthy) then s.skip tokens token
  else .ok (s.enter token.value .pass s.scopes)

/-- Closes the innermost section, or starts it again for the next item. -/
def close (s : State) (token : Token) : Except TemplateError State :=
  match s.opened with
  | [] => .error (.unexpectedEnder token.value token.line)
  | ⟨name, frame⟩ :: outer =>
    if name ≠ token.value then .error (.mismatchedEnder name token.value token.line)
    else
      match frame with
      | .pass => .ok { s with opened := outer, cursor := s.cursor + 1 }
      | .scope =>
        .ok { s with opened := outer, scopes := s.scopes.tail, cursor := s.cursor + 1 }
      | .loop items start remaining =>
        -- When the last item is done, the index is the size of the array.
        match items[items.size - (remaining - 1)]? with
        | none =>
          .ok { s with opened := outer, scopes := s.scopes.tail, cursor := s.cursor + 1 }
        | some item =>
          .ok { s with
            opened := ⟨name, .loop items start (remaining - 1)⟩ :: outer
            scopes := item :: s.scopes.tail
            cursor := start }

end State

/-- A text with an indentation put in front of each of its lines but the first. What
    follows the last line feed is a line only if it is not empty. -/
def indentLines (indent : List Char) : List Char → List Char
  | [] => []
  | [c] => [c]
  | c :: d :: rest =>
    if c = '\n' then c :: indent ++ indentLines indent (d :: rest)
    else c :: indentLines indent (d :: rest)

/-- A text without the spaces it ends with. -/
def dropEndSpaces (text : List Char) : List Char :=
  (text.reverse.dropWhile (· == ' ')).reverse

/-- The body of a partial, indented like the partial if that stands alone on a line. -/
def partialBody (indentation : Option (List Char)) (body : List Char) : List Char :=
  match indentation with
  | none => body
  | some indent => indentLines indent (dropEndSpaces body)

/-- Writes what the body of a partial renders to. -/
def State.expand (s : State) (expansion : Expansion) (token : Token) :
    Except TemplateError State :=
  let body := (Context.resolveText s.scopes token.value).toList
  (expansion token.value (partialBody s.indentation body) s.scopes).map fun text =>
    { s.write text with indentation := none }

/-- Takes the indentation of the partial that comes next, and writes it. -/
def State.indent (s : State) (blanks : List Char) : State :=
  if blanks.isEmpty then s.write ""
  else { s.write (String.ofList blanks) with indentation := some blanks }

/-- The state after the token at the cursor. -/
def step (settings : Settings) (expansion : Expansion) (tokens : Array Token) (s : State)
    (token : Token) : Except TemplateError State :=
  match token.kind with
  | .text => .ok (s.write (String.ofList token.value))
  | .comment => .ok (s.write "")
  | .escaped =>
    let text := Context.resolveText s.scopes token.value
    .ok (s.write (if settings.escapeHtml then escape text else text))
  | .unescaped => .ok (s.write (Context.resolveText s.scopes token.value))
  | .opener => s.openSection tokens token
  | .inverse => s.openInverse tokens token
  | .ender => s.close token
  | .expansion => s.expand expansion token
  | .indenter => .ok (s.indent token.value)

end Mustache.Render
