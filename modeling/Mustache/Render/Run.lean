import Mustache.Render.Progress
import Mustache.Template.Standalone

/-!
# Rendering a template

A template is read into tokens, its sections are checked, and the machine goes through
the tokens until none is left (`run`). The bodies of partials are rendered in the same
way, one level deeper, in the scopes of the partial (`renderAt`). Below the greatest
depth allowed no partial is expanded.
-/

namespace Mustache.Render

open Template

/-- The output of the machine from a state on. -/
def run (settings : Settings) (expansion : Expansion) (tokens : Array Token) (s : State) :
    Except TemplateError String :=
  if h : s.cursor < tokens.size then
    match _ : step settings expansion tokens s tokens[s.cursor] with
    | .error e => .error e
    | .ok t => run settings expansion tokens t
  else .ok s.output
termination_by s.potential tokens.size
decreasing_by exact potential_step_lt h ‹_›

/-- Reads a template, checks its sections, and renders it in some scopes. -/
def renderWith (settings : Settings) (expansion : Expansion) (template : List Char)
    (scopes : List Context) : Except TemplateError String := do
  let tokens ← tokenize settings.delimiters template
  Sections.check tokens
  run settings expansion tokens.toArray (.start scopes)

/-- Renders a template with partials nested in it no deeper than the given number of
    levels. -/
def renderWithin (settings : Settings) : Nat → List Char → List Context →
    Except TemplateError String
  | 0 => renderWith settings fun name _ _ =>
      .error (.partialTooDeep name settings.maxPartialDepth)
  | levels + 1 => renderWith settings fun _ body scopes =>
      renderWithin settings levels body scopes

/-- Renders a template that stands at a given depth of partials. -/
def renderAt (settings : Settings) (depth : Nat) (template : List Char)
    (scopes : List Context) : Except TemplateError String :=
  renderWithin settings (settings.maxPartialDepth - depth) template scopes

end Mustache.Render

namespace Mustache

/-- Renders a template with some data. -/
def render (settings : Settings) (template : String) (data : Context) :
    Except TemplateError String :=
  Render.renderAt settings 0 template.toList [data]

end Mustache
