import Mustache.Proofs.Layers.Nesting
import Mustache.Proofs.Tree.Compare

/-!
# The greatest depth of partials

The depth that partials may be nested to is there to stop a rendering, and for nothing else. A
rendering that it does not stop has the same result with any greater depth, be it an output or
an error. One that it does stop has come to the tag of a partial inside as many others as may
be nested in each other, no more and no fewer.

* `exists_partial_of_next`: how a turn goes too deep;
* `depth_only_cuts_off`: the two halves of this together.
-/

namespace Mustache.Render

open Template

/-! ## Results with a greater depth -/

/-- The result is that partials are nested too deeply. -/
def TooDeep (x : Except TemplateError String) : Prop :=
  ∃ name depth, x = .error (.partialTooDeep name depth)

/-- The second result is the first one, unless that one is cut off. -/
def CutOff (x y : Except TemplateError String) : Prop :=
  ¬ TooDeep x → y = x

theorem sequential_cutOff : Sequential CutOff where
  refl _ _ := rfl
  bind {x y f g} hxy hfg hdeep := by
    -- What comes first is not cut off either, as nothing would have come after it.
    have hx : ¬ TooDeep x := by
      rintro ⟨name, depth, rfl⟩
      exact hdeep ⟨name, depth, rfl⟩
    rw [hxy hx]
    cases x with
    | error e => rfl
    | ok out => exact hfg out rfl hdeep

variable {settings : Settings}

theorem cutOff_render {d : Nat} (h : settings.maxPartialDepth ≤ d) (template : String)
    (data : Context) : CutOff (render settings template data)
      (render { settings with maxPartialDepth := d } template data) := by
  rw [render, render, renderAt, renderAt]
  refine sequential_cutOff.renderWithin (fun name depth _ hdeep => ?_) ?_ ?_ h _ _
  · exact absurd ⟨name, depth, rfl⟩ hdeep
  · rfl
  · rfl

/-! ## Errors in a template -/

/-- The error is in the text of a template. -/
def InTemplate : TemplateError → Prop
  | .partialTooDeep .. => False
  | _ => True

section

variable {e : TemplateError}

theorem inTemplate_of_passTag {s s' : Scanner} (h : s.passTag = (.error e, s')) :
    InTemplate e := by
  rw [Scanner.passTag] at h
  split at h
  · cases h
    trivial
  · split at h <;> cases h
    trivial

theorem inTemplate_of_next {s s' : Scanner} (h : s.next = some (.error e, s')) :
    InTemplate e := by
  rcases Scanner.next_cases h with ⟨_, -, htag⟩ | ⟨_, -, -, htext⟩
  · exact inTemplate_of_passTag htag
  · cases htext

theorem inTemplate_of_tokens {s : Scanner} (h : s.tokens = .error e) : InTemplate e := by
  fun_induction Scanner.tokens s with
  | case1 => cases h
  | case2 s e' s' hnext =>
    cases h
    exact inTemplate_of_next hnext
  | case3 s token s' hnext ih => exact ih (map_eq_error_iff.1 h)

theorem inTemplate_of_tokenize {d : Delimiters} {template : List Char}
    (h : tokenize d template = .error e) : InTemplate e :=
  inTemplate_of_tokens (map_eq_error_iff.1 h)

theorem inTemplate_of_checkFrom {opened tokens : List Token}
    (h : Sections.checkFrom opened tokens = .error e) : InTemplate e := by
  fun_induction Sections.checkFrom opened tokens with
  | case1 => cases h
  | case2 | case5 | case7 =>
    cases h
    trivial
  | case3 _ _ _ _ ih | case4 _ _ _ _ ih | case8 _ _ _ _ _ _ ih => exact ih h
  | case6 _ _ _ _ _ _ ih => exact ih h

/-- A layer starts, or there is something wrong with the template. -/
theorem inTemplate_of_start {depth : Nat} {template : List Char} {scopes : List Context}
    (h : Layer.start settings depth template scopes = .error e) : InTemplate e := by
  rw [Layer.start] at h
  rcases bind_eq_error_iff.1 h with h | ⟨tokens, -, h⟩
  · exact inTemplate_of_tokenize h
  · rcases bind_eq_error_iff.1 h with h | ⟨-, -, h⟩
    · exact inTemplate_of_checkFrom h
    · cases h

variable {tokens : Array Token} {s : State} {token : Token}

theorem inTemplate_of_skip (h : s.skip tokens token = .error e) : InTemplate e := by
  rw [State.skip] at h
  split at h <;> cases h
  trivial

theorem inTemplate_of_openSection (h : s.openSection tokens token = .error e) :
    InTemplate e := by
  rw [State.openSection] at h
  split at h
  · exact inTemplate_of_skip h
  · cases h
  · exact inTemplate_of_skip h
  · cases h
  · split at h
    · cases h
    · exact inTemplate_of_skip h

theorem inTemplate_of_openInverse (h : s.openInverse tokens token = .error e) :
    InTemplate e := by
  rw [State.openInverse] at h
  split at h
  · exact inTemplate_of_skip h
  · cases h

theorem inTemplate_of_close (h : s.close token = .error e) : InTemplate e := by
  rw [State.close] at h
  split at h
  · cases h
    trivial
  · split at h
    · cases h
      trivial
    · split at h
      · cases h
      · cases h
      · split at h <;> cases h

/-- Where no partial is expanded, a step fails because of the template. -/
theorem inTemplate_of_step {expansion : Expansion} (hk : token.kind ≠ .expansion)
    (h : step settings expansion tokens s token = .error e) : InTemplate e := by
  rw [step] at h
  cases hkind : token.kind with
  | text | comment | escaped | unescaped | indenter =>
    rw [hkind] at h
    cases h
  | opener =>
    rw [hkind] at h
    exact inTemplate_of_openSection h
  | inverse =>
    rw [hkind] at h
    exact inTemplate_of_openInverse h
  | ender =>
    rw [hkind] at h
    exact inTemplate_of_close h
  | expansion => exact absurd hkind hk

end

/-! ## Where a rendering is cut off -/

/-- A turn that goes too deep is made at the tag of a partial, at the greatest depth. -/
theorem exists_partial_of_next {l : Layers} {name : List Char} {depth : Nat}
    (h : l.next settings = .error (.partialTooDeep name depth)) :
    depth = settings.maxPartialDepth ∧ settings.maxPartialDepth ≤ l.top.depth ∧
      ∃ token, l.top.tokens[l.top.state.cursor]? = some token ∧ token.kind = .expansion ∧
        token.value = name := by
  rw [Layers.next] at h
  split at h
  · split at h <;> cases h
  · next token hget =>
    split at h
    · next hk =>
      rcases bind_eq_error_iff.1 h with h | ⟨_, -, h⟩
      · rw [Layer.expand] at h
        split at h
        · exact (inTemplate_of_start h).elim
        · next hdeep =>
          cases h
          exact ⟨rfl, Nat.not_lt.1 hdeep, token, hget, hk, rfl⟩
      · cases h
    · next hk =>
      rcases bind_eq_error_iff.1 h with h | ⟨_, -, h⟩
      · exact (inTemplate_of_step hk h).elim
      · cases h

/-- A rendering that is cut off comes to the tag of a partial inside as many others as may be
    nested in each other. -/
theorem exists_of_render_too_deep {template : String} {data : Context} {name : List Char}
    {depth : Nat} (h : render settings template data = .error (.partialTooDeep name depth)) :
    depth = settings.maxPartialDepth ∧ ∃ first last token,
      Layer.start settings 0 template.toList [data] = .ok first ∧
      Layers.Leads settings ⟨first, []⟩ last ∧
      last.next settings = .error (.partialTooDeep name depth) ∧
      Layers.Nested settings first (last.top :: last.below) ∧
      last.below.length = settings.maxPartialDepth ∧
      last.top.tokens[last.top.state.cursor]? = some token ∧ token.kind = .expansion ∧
      token.value = name := by
  rw [render, renderAt_eq_result] at h
  rcases bind_eq_error_iff.1 h with h | ⟨first, hstart, h⟩
  · exact (inTemplate_of_start h).elim
  · obtain ⟨last, hleads, hlast⟩ := Layers.exists_last settings ⟨first, []⟩
    rw [Layers.result_of_nil, h] at hlast
    obtain ⟨tokens, -, -, rfl⟩ := Layer.exists_of_start hstart
    have hstacked : Layers.Stacked settings last := hleads.stacked ⟨⟨rfl, trivial⟩, Nat.zero_le _⟩
    obtain ⟨hdepth, hdeep, token, hget, hk, hv⟩ := exists_partial_of_next hlast
    rw [hstacked.climbs.1] at hdeep
    exact ⟨hdepth, _, last, token, hstart, hleads, hlast, hleads.nested,
      Nat.le_antisymm hstacked.length_le hdeep, hget, hk, hv⟩

/-- With a greater depth allowed, a template has the same output or error if it is rendered
    without partials being nested too deeply. If they are, the error says which depth is allowed,
    and names a partial whose tag the machine has come to inside just as many others. -/
theorem depth_only_cuts_off (settings : Settings) {d : Nat} (h : settings.maxPartialDepth ≤ d)
    (template : String) (data : Context) :
    ((∀ name depth, render settings template data ≠ .error (.partialTooDeep name depth)) →
      render { settings with maxPartialDepth := d } template data =
        render settings template data) ∧
    ∀ name depth, render settings template data = .error (.partialTooDeep name depth) →
      depth = settings.maxPartialDepth ∧ ∃ first last token,
        Layer.start settings 0 template.toList [data] = .ok first ∧
        Layers.Leads settings ⟨first, []⟩ last ∧
        last.next settings = .error (.partialTooDeep name depth) ∧
        Layers.Nested settings first (last.top :: last.below) ∧
        last.below.length = settings.maxPartialDepth ∧
        last.top.tokens[last.top.state.cursor]? = some token ∧ token.kind = .expansion ∧
        token.value = name := by
  refine ⟨fun hdeep => cutOff_render h template data ?_, fun name depth =>
    exists_of_render_too_deep⟩
  rintro ⟨name, depth, hrender⟩
  exact hdeep name depth hrender

/-- One partial may be expanded, but not another one inside it. -/
theorem depth_only_cuts_off_partial_in_partial :
    let settings : Settings := ⟨⟨"<%".toList, "%>".toList⟩, 1, true⟩
    let data : Context := .object [("p", .string "x<%>q%>"), ("q", .string "y")]
    settings.maxPartialDepth ≤ 2 ∧
    render settings "<%>q%>" data = .ok "y" ∧
    render { settings with maxPartialDepth := 2 } "<%>q%>" data = .ok "y" ∧
    render settings "<%>p%>" data = .error (.partialTooDeep "q".toList 1) ∧
    ∃ first last token, Layer.start settings 0 "<%>p%>".toList [data] = .ok first ∧
      Layers.Leads settings ⟨first, []⟩ last ∧ last.below.length = 1 ∧
      last.top.tokens[last.top.state.cursor]? = some token ∧ token.value = "q".toList := by
  intro settings data
  have hle : settings.maxPartialDepth ≤ 2 := by decide
  have hshallow : render settings "<%>q%>" data = .ok "y" := by
    rw [render, renderAt_eq_evaluateAt]
    cbv
  have hdeep : render settings "<%>p%>" data = .error (.partialTooDeep "q".toList 1) := by
    rw [render, renderAt_eq_evaluateAt]
    cbv
  have hsame := (depth_only_cuts_off settings hle "<%>q%>" data).1 (by simp [hshallow])
  obtain ⟨-, first, last, token, hstart, hleads, -, -, hlength, hget, -, hname⟩ :=
    (depth_only_cuts_off settings hle "<%>p%>" data).2 _ _ hdeep
  exact ⟨hle, hshallow, hsame.trans hshallow, hdeep, first, last, token, hstart, hleads, hlength,
    hget, hname⟩

end Mustache.Render
