/-!
# Tokens

A template is a sequence of *tokens*: the literal texts and the tags between
them, each with the line that it starts on. The *value* of a token is its text, or
what its tag names: a key, the name of a partial, a remark.
-/

namespace Mustache.Template

/-- The kinds of tokens. -/
inductive Kind where
  /-- Text that is copied to the output. -/
  | text
  /-- A remark, or a change of delimiters, neither of which is shown. -/
  | comment
  /-- A variable whose value is escaped. -/
  | escaped
  /-- A variable whose value is copied as it is. -/
  | unescaped
  /-- The opening tag of a section. -/
  | opener
  /-- The opening tag of an inverted section. -/
  | inverse
  /-- The closing tag of a section of either sort. -/
  | ender
  /-- A partial: a template kept in the data, to be expanded in place. -/
  | expansion
  /-- The blanks in front of a partial that stands alone on its line. -/
  | indenter
deriving DecidableEq, Repr

/-- Whether a tag of this kind takes its whole line with it when nothing else
    stands there. Variables do not, as they are replaced by text. -/
def Kind.mayStandAlone : Kind → Bool
  | .comment | .opener | .inverse | .ender | .expansion => true
  | .text | .escaped | .unescaped | .indenter => false

/-- A piece of a template. -/
structure Token where
  kind : Kind
  /-- The text, or what the tag names. -/
  value : List Char
  /-- The line the token starts on, the first line being 1. -/
  line : Nat
deriving DecidableEq, Repr

end Mustache.Template
