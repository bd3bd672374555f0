import Mustache.Proofs.Tree
import Mustache.Render.Run

/-!
# Evaluating the tree of a template

On the tree of a template there is no cursor to be moved and no section to be remembered:
a section evaluates the pieces that it holds in the scopes that it puts them in, as often as
it shows them (`evaluate`). How the body of a partial is rendered is left open, as it
is for the machine.

* `evaluateAt`: a template evaluated at a depth of partials, which are taken apart and
  evaluated in the same way, one level deeper;
* `evaluateAt_eq`: what a partial at some depth stands for (`partialAt`).
-/

namespace Mustache.Render

open Template

/-- The outputs of `f` for some items, one after the other, up to the first error. -/
def inOrder (f : Context → Except TemplateError String) : List Context →
    Except TemplateError String
  | [] => .ok ""
  | item :: items => do
    let first ← f item
    let others ← inOrder f items
    return first ++ others

mutual
/-- The output of a piece of a template in some scopes, the innermost first. -/
def evaluate (settings : Settings) (expansion : Expansion) :
    Piece → List Context → Except TemplateError String
  | .text text, _ => .ok (String.ofList text)
  | .remark, _ => .ok ""
  | .value escaped key, scopes =>
    let text := Context.resolveText scopes key
    .ok (if escaped && settings.escapeHtml then escape text else text)
  | .block key body, scopes =>
    match Context.resolve scopes key with
    | none => .ok ""
    | some (.object entries) =>
      evaluateAll settings expansion body (.object entries :: scopes)
    | some (.array items) =>
      inOrder (fun item => evaluateAll settings expansion body (item :: scopes)) items
    | some (.scalar value) =>
      if value.truthy then evaluateAll settings expansion body scopes else .ok ""
  | .inverse key body, scopes =>
    match Context.resolve scopes key with
    | none => evaluateAll settings expansion body scopes
    | some value => if value.truthy then .ok "" else evaluateAll settings expansion body scopes
  | .expansion indent name, scopes => do
    let body := (Context.resolveText scopes name).toList
    let indented := if indent.isEmpty then body else indentLines indent (dropEndSpaces body)
    let output ← expansion name indented scopes
    return String.ofList indent ++ output

/-- The outputs of some pieces, one after the other, up to the first error. -/
def evaluateAll (settings : Settings) (expansion : Expansion) :
    List Piece → List Context → Except TemplateError String
  | [], _ => .ok ""
  | piece :: pieces, scopes => do
    let first ← evaluate settings expansion piece scopes
    let others ← evaluateAll settings expansion pieces scopes
    return first ++ others
end

/-- Takes a template apart and evaluates it at a depth of partials. A partial fails at the
    greatest depth allowed; otherwise its body is evaluated one level deeper. -/
def evaluateAt (settings : Settings) (depth : Nat) (template : List Char)
    (scopes : List Context) : Except TemplateError String := do
  let tokens ← tokenize settings.delimiters template
  Sections.check tokens
  evaluateAll settings (fun name body scopes =>
    if depth < settings.maxPartialDepth then evaluateAt settings (depth + 1) body scopes
    else .error (.partialTooDeep name settings.maxPartialDepth)) (nest tokens) scopes
termination_by settings.maxPartialDepth - depth

/-- What a partial stands for in a template at some depth. -/
def partialAt (settings : Settings) (depth : Nat) : Expansion := fun name body scopes =>
  if depth < settings.maxPartialDepth then evaluateAt settings (depth + 1) body scopes
  else .error (.partialTooDeep name settings.maxPartialDepth)

theorem evaluateAt_eq (settings : Settings) (depth : Nat) (template : List Char)
    (scopes : List Context) :
    evaluateAt settings depth template scopes = (do
      let tokens ← tokenize settings.delimiters template
      Sections.check tokens
      evaluateAll settings (partialAt settings depth) (nest tokens) scopes) := by
  rw [evaluateAt]
  rfl

end Mustache.Render
