import Mustache.Delimiters

/-!
# What can be wrong with a template

A template is refused because of one tag (`Malformed`), because its sections are
not properly nested, or, only while it is rendered, because its partials are
nested too deeply. The wording of each is `TemplateError.message`.
-/

namespace Mustache

/-- What can be wrong with a single tag. -/
inductive Malformed where
  /-- The text that should end the tag does not occur. -/
  | unclosedTag (closer : List Char)
  /-- The tag names nothing. -/
  | emptyTag
  /-- The first character of the tag is set aside for tags not known here. -/
  | unsupportedSigil (sigil : Char)
  /-- A change of delimiters does not hold two words. -/
  | notTwoDelimiters (content : List Char)
  /-- A change of delimiters to a pair that cannot be used. -/
  | badDelimiter (fault : Delimiters.Fault)
deriving DecidableEq, Repr

/-- The wording of what is wrong with a tag. -/
def Malformed.message : Malformed → String
  | .unclosedTag closer => s!"Unclosed tag: expected '{String.ofList closer}'"
  | .emptyTag => "Empty tag"
  | .unsupportedSigil sigil => s!"Unsupported tag sigil '{sigil}'"
  | .notTwoDelimiters content =>
    s!"Invalid delimiter change '{String.ofList content}': " ++
      "expected two delimiters separated by whitespace"
  | .badDelimiter fault => fault.message

/-- Why a template cannot be rendered. -/
inductive TemplateError where
  /-- A tag is not written properly. -/
  | malformed (cause : Malformed) (line : Nat)
  /-- A section is still open at the end. -/
  | unclosedSection (name : List Char) (line : Nat)
  /-- A closing tag stands where no section is open. -/
  | unexpectedEnder (name : List Char) (line : Nat)
  /-- A closing tag names another section than the one to be closed. -/
  | mismatchedEnder (expected found : List Char) (line : Nat)
  /-- A partial is to be expanded at the greatest depth allowed. -/
  | partialTooDeep (name : List Char) (depth : Nat)
deriving DecidableEq, Repr

/-- A closing tag as it is shown in messages, whatever the delimiters are. -/
private def enderText (name : List Char) : String :=
  "\x7b\x7b/" ++ String.ofList name ++ "\x7d\x7d"

/-- The wording of an error. -/
def TemplateError.message : TemplateError → String
  | .malformed cause line => s!"Malformed syntax at line {line}: {cause.message}"
  | .unclosedSection name line =>
    s!"Unclosed section '{String.ofList name}' opened at line {line}"
  | .unexpectedEnder name line =>
    s!"Unexpected {enderText name} at line {line} without a matching opening tag"
  | .mismatchedEnder expected found line =>
    s!"Mismatched closing tag at line {line}: " ++
      s!"expected {enderText expected}, found {enderText found}"
  | .partialTooDeep name depth =>
    s!"Partial '{String.ofList name}' exceeded the maximum nesting depth of {depth}. " ++
      "Check for a partial that includes itself."

end Mustache
