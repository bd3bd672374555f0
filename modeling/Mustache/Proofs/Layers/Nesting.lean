import Mustache.Proofs.Layers

/-!
# How layers are nested

The topmost layer renders the body of the partial at which the one below it waits, and so it
goes on down to the template itself (`Nested`). Each layer on its own has come no other way
than a run over its tokens, in which a partial stands for what its body renders to
(`Layer.Continues`): what was rendered on top of it has come to just that.

* `Leads.nested`: layers are so nested at every turn.
-/

namespace Mustache.Render

open Template

variable {settings : Settings}

namespace Layer

/-- A layer is in the course of the run that starts with the first one. -/
structure Continues (settings : Settings) (first layer : Layer) : Prop where
  depth_eq : layer.depth = first.depth
  tokens_eq : layer.tokens = first.tokens
  reaches : Reaches settings (expandAt settings first.depth) first.tokens first.state layer.state

variable {first layer body : Layer} {token : Token} {state : State}

theorem Continues.refl (layer : Layer) : Continues settings layer layer :=
  ⟨rfl, rfl, .refl⟩

theorem Continues.step (h : Continues settings first layer)
    (hget : layer.tokens[layer.state.cursor]? = some token)
    (hstep : Render.step settings (expandAt settings layer.depth) layer.tokens layer.state token =
      .ok state) : Continues settings first { layer with state } := by
  rw [h.tokens_eq] at hget
  rw [h.tokens_eq, h.depth_eq] at hstep
  exact ⟨h.depth_eq, h.tokens_eq, h.reaches.step hget hstep⟩

/-- In the course of a run it is clear what it comes to. -/
theorem Continues.result_eq (h : Continues settings first layer) :
    first.result settings = layer.result settings := by
  rw [result, h.reaches.run_eq, result, h.depth_eq, h.tokens_eq]

/-- When the body of a partial is done, the machine makes the step that goes by the partial. -/
theorem step_of_done (hk : token.kind = .expansion) (hexpand : layer.expand settings token = .ok body)
    {done : Layer} (hbody : Continues settings body done)
    (hdone : done.tokens.size ≤ done.state.cursor) :
    Render.step settings (expandAt settings layer.depth) layer.tokens layer.state token =
      .ok (layer.resume done.state.output).state := by
  have hresult : body.result settings = .ok done.state.output :=
    hbody.result_eq.trans (run_of_size_le _ _ hdone)
  rw [Render.step, hk]
  simp only [State.expand, expandAt_eq_result, hexpand]
  show Except.map _ (body.result settings) = _
  rw [hresult]
  rfl

end Layer

namespace Layers

/-- Each layer is in the course of rendering the body of the partial at which the layer below
    it waits, and the outermost one in that of rendering the template, which starts with the
    first layer. -/
inductive Nested (settings : Settings) (first : Layer) : List Layer → Prop
  | outermost {layer : Layer} : Layer.Continues settings first layer →
      Nested settings first [layer]
  | inner {layer body waiting : Layer} {below : List Layer} {token : Token} :
      Nested settings first (waiting :: below) →
      waiting.tokens[waiting.state.cursor]? = some token → token.kind = .expansion →
      waiting.expand settings token = .ok body → Layer.Continues settings body layer →
      Nested settings first (layer :: waiting :: below)

variable {first : Layer} {l later : Layers}

/-- The topmost layer may go on in its run. -/
theorem Nested.step {layer : Layer} {below : List Layer} {token : Token} {state : State}
    (h : Nested settings first (layer :: below))
    (hget : layer.tokens[layer.state.cursor]? = some token)
    (hstep : Render.step settings (expandAt settings layer.depth) layer.tokens layer.state token =
      .ok state) : Nested settings first ({ layer with state } :: below) := by
  cases h with
  | outermost hrun => exact .outermost (hrun.step hget hstep)
  | inner hbelow hwait hk hexpand hrun => exact .inner hbelow hwait hk hexpand (hrun.step hget hstep)

theorem Turns.nested (h : Turns settings l later) (hn : Nested settings first (l.top :: l.below)) :
    Nested settings first (later.top :: later.below) := by
  cases h with
  | step hget hk hstep => exact hn.step hget ((step_congr rfl hk).trans hstep)
  | expand hget hk hexpand => exact .inner hn hget hk hexpand (.refl _)
  | resume hdone hbelow =>
    rw [hbelow] at hn
    cases hn with
    | inner hwaiting hget hk hexpand hrun =>
      exact hwaiting.step hget (Layer.step_of_done hk hexpand hrun hdone)

/-- The layers that a template leads to are nested in it. -/
theorem Leads.nested (h : Leads settings ⟨first, []⟩ l) :
    Nested settings first (l.top :: l.below) := by
  induction h with
  | refl => exact .outermost (.refl _)
  | tail _ hnext ih => exact (turns_of_next hnext).nested ih

end Layers

end Mustache.Render
