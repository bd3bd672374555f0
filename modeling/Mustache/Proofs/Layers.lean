import Mustache.Proofs.Run.Failure
import Mustache.Proofs.Tree.Run

/-!
# Templates within templates

While the body of a partial is rendered, the templates around it wait for its output. Spelled
out, the machine works on *layers* (`Layers`): a step is made in the topmost one, a partial
puts its body on top, and a template that is done hands its output to the one below. So no
partial is taken to have a result before its body has been gone through.

* `result_eq_next`: each turn keeps what the layers come to, so that they come to the output of
  the template, or to its error;
* `rendering_terminates`: there are only finitely many turns, and no layer is too deep.
-/

namespace Mustache.Render

open Template

/-- A template that is being rendered, at some depth of partials. -/
structure Layer where
  depth : Nat
  tokens : Array Token
  state : State

/-- The templates that are being rendered. -/
structure Layers where
  /-- The one that the machine works on. -/
  top : Layer
  /-- Those that wait, each of them at the partial whose body is on top of it. -/
  below : List Layer

namespace Layer

/-- Reads a template and checks its sections. The machine is at its first token. -/
def start (settings : Settings) (depth : Nat) (template : List Char) (scopes : List Context) :
    Except TemplateError Layer := do
  let tokens ← tokenize settings.delimiters template
  Sections.check tokens
  return ⟨depth, tokens.toArray, .start scopes⟩

/-- The body of a partial, one level deeper. -/
def expand (settings : Settings) (layer : Layer) (token : Token) : Except TemplateError Layer :=
  if layer.depth < settings.maxPartialDepth then
    let body := (Context.resolveText layer.state.scopes token.value).toList
    start settings (layer.depth + 1) (partialBody layer.state.indentation body) layer.state.scopes
  else .error (.partialTooDeep token.value settings.maxPartialDepth)

/-- Goes on behind a partial with the output of its body. -/
def resume (layer : Layer) (output : String) : Layer :=
  { layer with state := { layer.state.write output with indentation := none } }

/-- What the rest of a template comes to. -/
def result (settings : Settings) (layer : Layer) : Except TemplateError String :=
  run settings (expandAt settings layer.depth) layer.tokens layer.state

end Layer

namespace Layers

/-- One turn of the machine: the output of the whole, or what the layers are then. -/
def next (settings : Settings) (l : Layers) : Except TemplateError (String ⊕ Layers) :=
  match l.top.tokens[l.top.state.cursor]? with
  | none =>
    match l.below with
    | [] => return .inl l.top.state.output
    | waiting :: below => return .inr ⟨waiting.resume l.top.state.output, below⟩
  | some token =>
    if token.kind = .expansion then do
      let body ← l.top.expand settings token
      return .inr ⟨body, l.top :: l.below⟩
    else do
      -- Nothing is expanded in this step.
      let state ← step settings (fun _ _ _ => .ok "") l.top.tokens l.top.state token
      return .inr ⟨{ l.top with state }, l.below⟩

/-- Some turns later. -/
def Leads (settings : Settings) : Layers → Layers → Prop :=
  Relation.ReflTransGen fun l later => l.next settings = .ok (.inr later)

/-- What layers come to when the topmost one has some output. -/
def finish (settings : Settings) : List Layer → String → Except TemplateError String
  | [], output => .ok output
  | waiting :: below, output => (waiting.resume output).result settings >>= finish settings below

/-- What the layers come to. -/
def result (settings : Settings) (l : Layers) : Except TemplateError String :=
  l.top.result settings >>= finish settings l.below

end Layers

section

variable {settings : Settings}

/-! ## What layers come to -/

theorem renderAt_eq_result (depth : Nat) (template : List Char) (scopes : List Context) :
    renderAt settings depth template scopes =
      Layer.start settings depth template scopes >>= (·.result settings) := by
  rw [renderAt_eq_renderWith, renderWith, Layer.start]
  simp only [bind_assoc, pure_bind]
  rfl

namespace Layer

variable {layer body : Layer} {token : Token}

theorem exists_of_start {depth : Nat} {template : List Char} {scopes : List Context}
    (h : start settings depth template scopes = .ok layer) :
    ∃ tokens, tokenize settings.delimiters template = .ok tokens ∧
      Sections.check tokens = .ok () ∧ layer = ⟨depth, tokens.toArray, .start scopes⟩ := by
  rw [start] at h
  obtain ⟨tokens, ht, h⟩ := bind_eq_ok_iff.1 h
  obtain ⟨_, hc, h⟩ := bind_eq_ok_iff.1 h
  cases h
  exact ⟨tokens, ht, hc, rfl⟩

theorem exists_of_expand (h : layer.expand settings token = .ok body) :
    layer.depth < settings.maxPartialDepth ∧
      ∃ template, start settings (layer.depth + 1) template layer.state.scopes = .ok body := by
  rw [expand] at h
  split at h
  · next hlt => exact ⟨hlt, _, h⟩
  · cases h

theorem depth_of_expand (h : layer.expand settings token = .ok body) :
    body.depth = layer.depth + 1 := by
  obtain ⟨_, _, hstart⟩ := exists_of_expand h
  obtain ⟨_, _, _, rfl⟩ := exists_of_start hstart
  rfl

/-- A partial stands for what its body comes to as a layer of its own. -/
theorem expandAt_eq_result (layer : Layer) (token : Token) :
    expandAt settings layer.depth token.value (partialBody layer.state.indentation
        (Context.resolveText layer.state.scopes token.value).toList) layer.state.scopes =
      layer.expand settings token >>= (·.result settings) := by
  rw [expandAt, expand]
  split
  · exact renderAt_eq_result ..
  · rfl

/-- At a partial, the rest comes to what its body comes to, and then what follows. -/
theorem result_of_expansion (hget : layer.tokens[layer.state.cursor]? = some token)
    (hk : token.kind = .expansion) :
    layer.result settings =
      (layer.expand settings token >>= (·.result settings)) >>= fun output =>
        (layer.resume output).result settings := by
  rw [result, run_of_getElem? _ _ hget, step, hk]
  simp only [State.expand, expandAt_eq_result]
  cases layer.expand settings token >>= (·.result settings) <;> rfl

/-- At any other token, the rest comes to what it comes to after the step. -/
theorem result_of_step (hget : layer.tokens[layer.state.cursor]? = some token)
    (hk : token.kind ≠ .expansion) :
    layer.result settings =
      step settings (fun _ _ _ => .ok "") layer.tokens layer.state token >>= fun state =>
        result settings { layer with state } := by
  rw [result, run_of_getElem? _ _ hget, step_congr rfl hk]
  rfl

end Layer

namespace Layers

variable {l later : Layers}

/-- The layers come to what they come to after a turn. -/
theorem result_eq_next (settings : Settings) (l : Layers) :
    l.result settings =
      l.next settings >>= Sum.elim Except.ok fun later => later.result settings := by
  rw [result, next]
  split
  · next hget =>
    have hdone : l.top.result settings = .ok l.top.state.output :=
      run_of_size_le _ _ (Array.getElem?_eq_none_iff.1 hget)
    rw [hdone]
    cases l.below <;> rfl
  · next token hget =>
    split
    · next hk =>
      rw [Layer.result_of_expansion hget hk]
      simp only [bind_assoc, pure_bind]
      rfl
    · next hk =>
      rw [Layer.result_of_step hget hk]
      simp only [bind_assoc, pure_bind]
      rfl

/-- A template on its own comes to what the machine comes to. -/
theorem result_of_nil (layer : Layer) :
    Layers.result settings ⟨layer, []⟩ = layer.result settings := by
  show layer.result settings >>= Except.ok = layer.result settings
  exact bind_pure _

/-! ## The turns -/

/-- A turn of the machine that does not end it. -/
inductive Turns (settings : Settings) (l : Layers) : Layers → Prop
  | step {token : Token} {state : State} : l.top.tokens[l.top.state.cursor]? = some token →
      token.kind ≠ .expansion →
      Render.step settings (fun _ _ _ => .ok "") l.top.tokens l.top.state token = .ok state →
      Turns settings l ⟨{ l.top with state }, l.below⟩
  | expand {token : Token} {body : Layer} : l.top.tokens[l.top.state.cursor]? = some token →
      token.kind = .expansion → l.top.expand settings token = .ok body →
      Turns settings l ⟨body, l.top :: l.below⟩
  | resume {waiting : Layer} {below : List Layer} : l.top.tokens.size ≤ l.top.state.cursor →
      l.below = waiting :: below → Turns settings l ⟨waiting.resume l.top.state.output, below⟩

variable {l later : Layers}

theorem turns_of_next (h : l.next settings = .ok (.inr later)) : Turns settings l later := by
  rw [next] at h
  split at h
  · next hget =>
    split at h
    · cases h
    · next hbelow =>
      cases h
      exact .resume (Array.getElem?_eq_none_iff.1 hget) hbelow
  · next token hget =>
    split at h
    · next hk =>
      obtain ⟨body, hbody, h⟩ := bind_eq_ok_iff.1 h
      cases h
      exact .expand hget hk hbody
    · next hk =>
      obtain ⟨state, hstep, h⟩ := bind_eq_ok_iff.1 h
      cases h
      exact .step hget hk hstep

theorem output_of_next {output : String} (h : l.next settings = .ok (.inl output)) :
    l.top.state.output = output := by
  rw [next] at h
  split at h
  · split at h
    · cases h
      rfl
    · cases h
  · split at h
    · obtain ⟨_, _, h⟩ := bind_eq_ok_iff.1 h
      cases h
    · obtain ⟨_, _, h⟩ := bind_eq_ok_iff.1 h
      cases h

/-- The layers hold the tokens of templates. -/
def Read (settings : Settings) (l : Layers) : Prop :=
  ∀ layer ∈ l.top :: l.below,
    ∃ template, tokenize settings.delimiters template = .ok layer.tokens.toList

theorem Turns.read (h : Turns settings l later) (hr : Read settings l) : Read settings later := by
  obtain ⟨htop, hbelow⟩ := List.forall_mem_cons.1 hr
  cases h with
  | step => exact List.forall_mem_cons.2 ⟨htop, hbelow⟩
  | expand _ _ hbody =>
    obtain ⟨_, template, hstart⟩ := Layer.exists_of_expand hbody
    obtain ⟨_, htokens, _, rfl⟩ := Layer.exists_of_start hstart
    exact List.forall_mem_cons.2 ⟨⟨template, htokens⟩, hr⟩
  | resume _ heq =>
    rw [heq] at hbelow
    exact List.forall_mem_cons.2 (List.forall_mem_cons.1 hbelow)

theorem Leads.read (h : Leads settings l later) (hr : Read settings l) : Read settings later := by
  induction h with
  | refl => exact hr
  | tail _ hnext ih => exact (turns_of_next hnext).read ih

/-! ## The depth of layers -/

/-- Each waiting template has as many others below it as its depth says. -/
def Climbs : List Layer → Prop
  | [] => True
  | layer :: below => layer.depth = below.length ∧ Climbs below

/-- The layers are at the depths from zero on, up to the greatest one allowed at most. -/
structure Stacked (settings : Settings) (l : Layers) : Prop where
  climbs : Climbs (l.top :: l.below)
  length_le : l.below.length ≤ settings.maxPartialDepth

theorem Turns.stacked (h : Turns settings l later) (hl : Stacked settings l) :
    Stacked settings later := by
  obtain ⟨hclimbs, hle⟩ := hl
  cases h with
  | step => exact ⟨hclimbs, hle⟩
  | expand _ _ hbody =>
    have htop := hclimbs.1
    have hlt := (Layer.exists_of_expand hbody).1
    refine ⟨⟨?_, hclimbs⟩, ?_⟩
    · rw [Layer.depth_of_expand hbody, htop, List.length_cons]
    · rw [List.length_cons]
      omega
  | resume _ hbelow =>
    rw [hbelow] at hclimbs hle
    exact ⟨hclimbs.2, Nat.le_of_succ_le hle⟩

theorem Leads.stacked (h : Leads settings l later) (hl : Stacked settings l) :
    Stacked settings later := by
  induction h with
  | refl => exact hl
  | tail _ hnext ih => exact (turns_of_next hnext).stacked ih

theorem depth_le_of_climbs {layers : List Layer} (h : Climbs layers) {layer : Layer}
    (hm : layer ∈ layers) : layer.depth < layers.length := by
  induction layers with
  | nil => cases hm
  | cons first below ih =>
    rw [List.length_cons]
    rcases List.mem_cons.1 hm with rfl | hm
    · rw [h.1]
      exact Nat.lt_succ_self _
    · exact Nat.lt_succ_of_lt (ih h.2 hm)

/-- No layer is deeper than the greatest depth allowed. -/
theorem Stacked.depth_le (h : Stacked settings l) {layer : Layer} (hm : layer ∈ l.top :: l.below) :
    layer.depth ≤ settings.maxPartialDepth :=
  (Nat.le_of_lt_succ (depth_le_of_climbs h.climbs hm)).trans h.length_le

/-! ## The end -/

/-- Turns backwards. -/
abbrev After (settings : Settings) (later l : Layers) : Prop := l.next settings = .ok (.inr later)

/-- If the machine stops once the topmost layer is done, it stops. -/
theorem acc_of_resume (below : List Layer)
    (hresume : ∀ waiting rest, below = waiting :: rest → ∀ output,
      Acc (After settings) ⟨waiting.resume output, rest⟩) (layer : Layer) :
    Acc (After settings) ⟨layer, below⟩ := by
  -- By induction on the levels left for partials, and then on the potential of the layer, as
  -- the body of a partial may take any number of steps.
  induction hlevels : settings.maxPartialDepth - layer.depth using Nat.strongRecOn
    generalizing layer below with
  | ind levels ihlevels =>
    induction hpotential : layer.state.potential layer.tokens.size using Nat.strongRecOn
      generalizing layer with
    | ind potential ih =>
      subst hlevels hpotential
      refine .intro _ fun later hnext => ?_
      cases turns_of_next hnext with
      | step hget _ hstep =>
        obtain ⟨hlt, rfl⟩ := Array.getElem?_eq_some_iff.1 hget
        exact ih _ (potential_step_lt hlt hstep) { layer with state := _ } rfl rfl
      | @expand _ body hget _ hbody =>
        obtain ⟨hlt, rfl⟩ := Array.getElem?_eq_some_iff.1 hget
        have hdepth : body.depth = layer.depth + 1 := Layer.depth_of_expand hbody
        have hmax : layer.depth < settings.maxPartialDepth := (Layer.exists_of_expand hbody).1
        refine ihlevels _ (by omega) (layer :: below) (fun waiting rest h output => ?_) _ rfl
        obtain ⟨rfl, rfl⟩ := List.cons.inj h
        have hpot : (layer.resume output).state.potential layer.tokens.size <
            layer.state.potential layer.tokens.size :=
          potential_lt hlt (Nat.lt_succ_self _) (Nat.le_refl _) (Nat.le_refl _)
        exact ih _ hpot (layer.resume output) rfl rfl
      | resume _ hbelow => exact hresume _ _ hbelow _

theorem wellFounded_after (settings : Settings) : WellFounded (After settings) := by
  refine ⟨fun ⟨top, below⟩ => ?_⟩
  induction below generalizing top with
  | nil => exact acc_of_resume [] (fun _ _ h => nomatch h) top
  | cons waiting below ih =>
    refine acc_of_resume _ (fun waiting' rest h output => ?_) top
    obtain ⟨rfl, rfl⟩ := List.cons.inj h
    exact ih _

/-- In the last turn there is what the layers come to. -/
theorem exists_last (settings : Settings) (l : Layers) :
    ∃ last, Leads settings l last ∧ last.next settings = (l.result settings).map .inl := by
  induction l using (wellFounded_after settings).induction with
  | _ l ih =>
    rw [result_eq_next]
    cases hnext : l.next settings with
    | error e => exact ⟨l, .refl, hnext⟩
    | ok turn =>
      cases turn with
      | inl output => exact ⟨l, .refl, hnext⟩
      | inr later =>
        obtain ⟨last, hleads, hlast⟩ := ih later hnext
        exact ⟨last, .head hnext hleads, hlast⟩

/-- Layers that come to an output end with it in the last one. -/
theorem exists_of_result_eq_ok {output : String} (h : l.result settings = .ok output) :
    ∃ last, Leads settings l last ∧ last.top.state.output = output := by
  obtain ⟨last, hleads, hlast⟩ := exists_last settings l
  rw [h] at hlast
  exact ⟨last, hleads, output_of_next hlast⟩

end Layers

/-- The steps over the tokens of one template. -/
theorem wellFounded_step (settings : Settings) (expansion : Expansion) (tokens : Array Token) :
    WellFounded fun later s : State => ∃ token, tokens[s.cursor]? = some token ∧
      step settings expansion tokens s token = .ok later := by
  refine Subrelation.wf ?_ (measure (State.potential tokens.size)).wf
  rintro later s ⟨token, hget, hstep⟩
  obtain ⟨hlt, rfl⟩ := Array.getElem?_eq_some_iff.1 hget
  exact potential_step_lt hlt hstep

/-- Partials are not expanded in each other for ever. -/
theorem wellFounded_expand (settings : Settings) :
    WellFounded fun body layer : Layer => ∃ token, layer.expand settings token = .ok body := by
  refine Subrelation.wf ?_ (measure fun layer : Layer => settings.maxPartialDepth - layer.depth).wf
  rintro body layer ⟨token, hbody⟩
  have hdepth := Layer.depth_of_expand hbody
  have hmax := (Layer.exists_of_expand hbody).1
  show settings.maxPartialDepth - body.depth < settings.maxPartialDepth - layer.depth
  omega

/-- Whatever the settings are, over the tokens of each template there are finitely many steps,
    partials are not expanded in each other for ever, and there are finitely many turns in all,
    whatever partials the data has the templates include. A template is not read, or the layers
    that start with it are never deeper than allowed, and end with its output or its error. -/
theorem rendering_terminates (settings : Settings) :
    (∀ (expansion : Expansion) (tokens : Array Token),
      WellFounded fun later s : State => ∃ token, tokens[s.cursor]? = some token ∧
        step settings expansion tokens s token = .ok later) ∧
    (WellFounded fun body layer : Layer => ∃ token, layer.expand settings token = .ok body) ∧
    (WellFounded fun later l : Layers => l.next settings = .ok (.inr later)) ∧
    ∀ (template : String) (data : Context),
      (∃ e, Layer.start settings 0 template.toList [data] = .error e ∧
        render settings template data = .error e) ∨
      ∃ first, Layer.start settings 0 template.toList [data] = .ok first ∧
        (∀ l, Layers.Leads settings ⟨first, []⟩ l →
          ∀ layer ∈ l.top :: l.below, layer.depth ≤ settings.maxPartialDepth) ∧
        ∃ last, Layers.Leads settings ⟨first, []⟩ last ∧
          last.next settings = (render settings template data).map .inl := by
  refine ⟨wellFounded_step settings, wellFounded_expand settings,
    Layers.wellFounded_after settings, fun template data => ?_⟩
  rw [render, renderAt_eq_result]
  cases hstart : Layer.start settings 0 template.toList [data] with
  | error e => exact .inl ⟨e, rfl, rfl⟩
  | ok first =>
    obtain ⟨tokens, _, _, rfl⟩ := Layer.exists_of_start hstart
    have hstacked : Layers.Stacked settings ⟨⟨0, tokens.toArray, .start [data]⟩, []⟩ :=
      ⟨⟨rfl, trivial⟩, Nat.zero_le _⟩
    obtain ⟨last, hleads, hlast⟩ :=
      Layers.exists_last settings ⟨⟨0, tokens.toArray, .start [data]⟩, []⟩
    refine .inr ⟨_, rfl, fun l hl layer hm => (hl.stacked hstacked).depth_le hm, last, hleads, ?_⟩
    exact hlast.trans (congrArg _ (Layers.result_of_nil _))

/-- A partial that includes itself is too deep in the end. -/
theorem rendering_terminates_self_inclusion :
    let settings : Settings := ⟨⟨"<%".toList, "%>".toList⟩, 1, true⟩
    let data : Context := .object [("p", .string "x<%>p%>")]
    ∃ first last, Layer.start settings 0 "<%>p%>".toList [data] = .ok first ∧
      Layers.Leads settings ⟨first, []⟩ last ∧
      last.next settings = .error (.partialTooDeep "p".toList 1) := by
  have hrender : render ⟨⟨"<%".toList, "%>".toList⟩, 1, true⟩ "<%>p%>"
      (.object [("p", .string "x<%>p%>")]) = .error (.partialTooDeep "p".toList 1) := by
    rw [render, renderAt_eq_evaluateAt]
    cbv
  rcases (rendering_terminates ⟨⟨"<%".toList, "%>".toList⟩, 1, true⟩).2.2.2 "<%>p%>"
    (.object [("p", .string "x<%>p%>")]) with
    ⟨e, hstart, _⟩ | ⟨first, hstart, _, last, hleads, hlast⟩
  · have hread : (Layer.start ⟨⟨"<%".toList, "%>".toList⟩, 1, true⟩ 0 "<%>p%>".toList
        [.object [("p", .string "x<%>p%>")]]).isOk = true := by cbv
    rw [hstart] at hread
    cases hread
  · exact ⟨first, last, hstart, hleads, hlast.trans (by rw [hrender]; rfl)⟩

end

end Mustache.Render
