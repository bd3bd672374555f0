import Mustache.Template.Error
import Mustache.Template.Token

/-!
# Nesting of sections

The opening and closing tags of a template have to pair up like parentheses, by
name. This is checked once, before anything is rendered (`Sections.check`). After
that a section can be passed over by counting alone (`Sections.closing?`).
-/

namespace Mustache.Template.Sections

/-- Checks that each closing tag names the innermost section open before it, and that
    none is open at the end. The sections `open` so far are given innermost first. -/
def checkFrom (opened : List Token) : List Token → Except TemplateError Unit
  | [] =>
    match opened with
    | [] => .ok ()
    | innermost :: _ => .error (.unclosedSection innermost.value innermost.line)
  | token :: rest =>
    match token.kind with
    | .opener | .inverse => checkFrom (token :: opened) rest
    | .ender =>
      match opened with
      | [] => .error (.unexpectedEnder token.value token.line)
      | innermost :: outer =>
        if innermost.value = token.value then checkFrom outer rest
        else .error (.mismatchedEnder innermost.value token.value token.line)
    | _ => checkFrom opened rest

/-- Checks that the sections of a template are properly nested. -/
def check (tokens : List Token) : Except TemplateError Unit :=
  checkFrom [] tokens

/-- The index of the closing tag of the section whose opening tag is the last one
    before index `i`, when `depth` sections inside it are open there. -/
def closingFrom? (tokens : Array Token) (depth i : Nat) : Option Nat :=
  if h : i < tokens.size then
    match tokens[i].kind with
    | .opener | .inverse => closingFrom? tokens (depth + 1) (i + 1)
    | .ender =>
      match depth with
      | 0 => some i
      | depth + 1 => closingFrom? tokens depth (i + 1)
    | _ => closingFrom? tokens depth (i + 1)
  else none
termination_by tokens.size - i

/-- The index of the closing tag of the section opened at index `i`, found by counting
    the sections in between. -/
def closing? (tokens : Array Token) (i : Nat) : Option Nat :=
  closingFrom? tokens 0 (i + 1)

/-- The closing tag comes after the opening one. -/
theorem le_of_closingFrom? {tokens : Array Token} {depth i j : Nat}
    (h : closingFrom? tokens depth i = some j) : i ≤ j ∧ j < tokens.size := by
  fun_induction closingFrom? tokens depth i <;> grind

end Mustache.Template.Sections
