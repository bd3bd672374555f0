import Mustache.Template.Scanner

/-!
# Tags that stand alone on a line

A tag *stands alone* when nothing but blanks shares its lines: only spaces, tabs and
carriage returns lie between the line feed before it, or the start of the template,
and the tag, and between the tag and the line feed after it, or the end of the
template (`standing?`). Such a tag takes these blanks and the line feed with it, so
that it leaves no empty line behind. A partial keeps the blanks in front of it, as an
*indenter*.

The rule reads the tokens as the scanner yields them (`settle`): the blanks are the
ends of the texts next to the tag, which are cut by what the tags on either side take
(`cutOf`).
-/

namespace Mustache.Template

/-- The blanks that do not end a line. -/
def isInlineBlank (c : Char) : Bool :=
  c == ' ' || c == '\t' || c == '\r'

/-- What a tag that stands alone takes from its neighbours. -/
structure Standing where
  /-- The blanks in front of the tag. -/
  indent : List Char
  /-- How many characters after the tag go, its line feed included. -/
  ending : Nat
deriving DecidableEq, Repr

/-- The blanks between the start of the line and a tag, given the tokens before it,
    the nearest first. There are none if something else stands there. -/
def indentBefore : List Token → Option (List Char)
  | [] => some []
  | previous :: earlier =>
    let line := (previous.value.reverse.takeWhile (· != '\n')).reverse
    let fromStart := previous.value.contains '\n' || earlier.isEmpty
    if previous.kind = .text ∧ fromStart ∧ line.all isInlineBlank then some line else none

/-- The number of characters from a tag to the end of its line, given the tokens after
    it. There is none if something else stands there. -/
def endingAfter : List Token → Option Nat
  | [] => some 0
  | following :: later =>
    let line := following.value.takeWhile (· != '\n')
    let hasFeed := following.value.contains '\n'
    if following.kind = .text ∧ (hasFeed ∨ later.isEmpty) ∧ line.all isInlineBlank then
      some (if hasFeed then line.length + 1 else line.length)
    else none

/-- What a tag takes from its neighbours, given the tokens before it, the nearest
    first, and those after it, if it stands alone. -/
def standing? (before : List Token) (tag : Token) (after : List Token) : Option Standing :=
  if tag.kind.mayStandAlone then
    (indentBefore before).bind fun indent => (endingAfter after).map (⟨indent, ·⟩)
  else none

/-- How many characters a text loses at either end. -/
structure Cut where
  start : Nat
  stop : Nat
deriving DecidableEq, Repr

/-- What the tags on either side take from a text. -/
def cutOf (before : List Token) (text : Token) (after : List Token) : Cut where
  start :=
    match before with
    | [] => 0
    | tag :: earlier => ((standing? earlier tag (text :: after)).map (·.ending)).getD 0
  stop :=
    match after with
    | [] => 0
    | tag :: later => ((standing? (text :: before) tag later).map (·.indent.length)).getD 0

/-- What is left of a text after a cut. The line moves down with the line feeds that
    are cut off the start. -/
def Token.cut (text : Token) (c : Cut) : Token :=
  let start := min c.start text.value.length
  let stop := max (text.value.length - c.stop) start
  { text with
    value := (text.value.take stop).drop start
    line := text.line + Text.lineFeeds (text.value.take start) }

/-- What becomes of one token among those before it, the nearest first, and those
    after it: a text is cut, and dropped if nothing is left of it; a partial that
    stands alone gets an indenter for the blanks in front of it. -/
def settled (before : List Token) (token : Token) (after : List Token) : List Token :=
  match token.kind with
  | .text =>
    let text := token.cut (cutOf before token after)
    if text.value.isEmpty then [] else [text]
  | .expansion =>
    match standing? before token after with
    | some ⟨c :: indent, _⟩ => [⟨.indenter, c :: indent, token.line⟩, token]
    | _ => [token]
  | _ => [token]

/-- The tokens of a template with the rule on lines applied, given those already
    passed, the nearest first. -/
def settle (before : List Token) : List Token → List Token
  | [] => []
  | token :: after => settled before token after ++ settle (token :: before) after

/-- The tokens of a template that starts with the given delimiters. -/
def tokenize (d : Delimiters) (template : List Char) : Except TemplateError (List Token) :=
  (scan d template).map (settle [])

end Mustache.Template
