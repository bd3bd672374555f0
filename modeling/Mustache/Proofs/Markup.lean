import Mustache.Proofs.Layers

/-!
# Markup

If all variables are escaped, the data adds no markup to a document: what the output holds of
the characters that make up markup is in the texts of the template, or of the bodies of partials
that are expanded in it (`Involves`). This follows from what is true of the outputs of all layers
at every turn (`Leads.written`), as an output is only ever added to.

* `escaped_values_add_no_markup`: the characters that can be in an output, and the entities.
-/

namespace Mustache.Render

open Template

/-- A property of texts that is kept when texts are put together. -/
structure Additive (Q : List Char → Prop) : Prop where
  nil : Q []
  append : ∀ {s t : List Char}, Q s → Q t → Q (s ++ t)

/-- What a token itself adds to an output has a property; variables must be escaped. -/
def Adds (Q : List Char → Prop) (token : Token) : Prop :=
  match token.kind with
  | .text | .indenter => Q token.value
  | .unescaped => False
  | .comment | .escaped | .opener | .inverse | .ender | .expansion => True

section

variable {settings : Settings} {Q : List Char → Prop}

/-- A text has the property escaped if each of its characters has. -/
theorem Additive.escape (hQ : Additive Q) (he : ∀ c, Q (escapeChar c)) (text : String) :
    Q (escape text).toList := by
  rw [toList_escape]
  induction text.toList with
  | nil => exact hQ.nil
  | cons c cs ih => exact hQ.append (he c) ih

theorem Additive.write (hQ : Additive Q) {s : State} {text : String} (hs : Q s.output.toList)
    (ht : Q text.toList) : Q (s.write text).output.toList := by
  show Q (s.output ++ text).toList
  rw [String.toList_append]
  exact hQ.append hs ht

/-- A step keeps the property of the output. -/
theorem Additive.step (hQ : Additive Q) (he : ∀ c, Q (escapeChar c))
    (hs : settings.escapeHtml = true) {expansion : Expansion} {tokens : Array Token}
    {s t : State} {token : Token} (hadds : Adds Q token) (hk : token.kind ≠ .expansion)
    (h : step settings expansion tokens s token = .ok t) (ho : Q s.output.toList) :
    Q t.output.toList := by
  have hquiet : token.kind.role ≠ .stays → Q t.output.toList := fun hr => by
    rw [((moves_of_step h).quiet hr).2]
    exact ho
  rw [Adds] at hadds
  cases hkind : token.kind with
  | opener | inverse | ender => exact hquiet (by rw [hkind, Kind.role]; decide)
  | expansion => exact absurd hkind hk
  | unescaped => rw [hkind] at hadds; exact hadds.elim
  | text =>
    rw [Render.step, hkind] at h
    rw [hkind] at hadds
    cases h
    exact hQ.write ho (by rwa [String.toList_ofList])
  | comment =>
    rw [Render.step, hkind] at h
    cases h
    exact hQ.write ho hQ.nil
  | escaped =>
    rw [Render.step, hkind] at h
    simp only [hs, if_true] at h
    cases h
    exact hQ.write ho (hQ.escape he _)
  | indenter =>
    rw [Render.step, hkind] at h
    rw [hkind] at hadds
    cases h
    rw [State.indent]
    split
    · exact hQ.write ho hQ.nil
    · exact hQ.write ho (by rwa [String.toList_ofList])

namespace Layers

variable {l later : Layers}

/-- The outputs of all layers have a property. -/
def Written (Q : List Char → Prop) (l : Layers) : Prop :=
  ∀ layer ∈ l.top :: l.below, Q layer.state.output.toList

/-- A turn keeps the property of the outputs. -/
theorem Turns.written (hQ : Additive Q) (he : ∀ c, Q (escapeChar c))
    (hs : settings.escapeHtml = true) (hadds : ∀ token ∈ l.top.tokens, Adds Q token)
    (h : Turns settings l later) (hw : Written Q l) : Written Q later := by
  obtain ⟨htop, hbelow⟩ := List.forall_mem_cons.1 hw
  cases h with
  | step hget hk hstep =>
    have hadd := hadds _ (Array.mem_of_getElem? hget)
    exact List.forall_mem_cons.2 ⟨hQ.step he hs hadd hk hstep htop, hbelow⟩
  | expand _ _ hbody =>
    obtain ⟨_, _, hstart⟩ := Layer.exists_of_expand hbody
    obtain ⟨_, _, _, rfl⟩ := Layer.exists_of_start hstart
    exact List.forall_mem_cons.2 ⟨hQ.nil, hw⟩
  | resume _ heq =>
    rw [heq] at hbelow
    obtain ⟨hwaiting, hrest⟩ := List.forall_mem_cons.1 hbelow
    exact List.forall_mem_cons.2 ⟨hQ.write hwaiting htop, hrest⟩

theorem Leads.written (hQ : Additive Q) (he : ∀ c, Q (escapeChar c))
    (hs : settings.escapeHtml = true)
    (hadds : ∀ later, Leads settings l later → ∀ token ∈ later.top.tokens, Adds Q token)
    (h : Leads settings l later) (hw : Written Q l) : Written Q later := by
  induction h with
  | refl => exact hw
  | tail hleads hnext ih => exact (turns_of_next hnext).written hQ he hs (hadds _ hleads) ih

end Layers

end

/-! ## Characters and entities -/

/-- The characters that are escaped, but for the one that entities start with. -/
def markup : List Char := ['<', '>', '"', '\\']

/-- What stands for characters that are escaped. -/
def entities : List String := ["&amp;", "&lt;", "&gt;", "&#92;", "&quot;"]

/-- Each ampersand starts an entity. -/
def EntitiesOnly (s : List Char) : Prop :=
  ∀ rest, '&' :: rest <:+ s → ∃ entity ∈ entities, entity.toList <+: '&' :: rest

theorem additive_not_mem (c : Char) : Additive (c ∉ ·) where
  nil := List.not_mem_nil
  append hs ht := fun h => (List.mem_append.1 h).elim hs ht

theorem additive_entitiesOnly : Additive EntitiesOnly where
  nil rest h := by simp at h
  append {s t} hs ht := by
    rintro rest ⟨before, h⟩
    rcases List.append_eq_append_iff.1 h with ⟨inner, rfl, hrest⟩ | ⟨inner, rfl, rfl⟩
    · cases inner with
      | nil => exact ht rest (hrest ▸ List.suffix_refl _)
      | cons c inner =>
        -- The entity of the first text is not cut short.
        obtain ⟨rfl, rfl⟩ := List.cons.inj hrest
        obtain ⟨entity, hm, hprefix⟩ := hs inner (List.suffix_append _ _)
        exact ⟨entity, hm, hprefix.trans (List.prefix_append _ t)⟩
    · exact ht rest (List.suffix_append _ _)

theorem entitiesOnly_of_not_mem {s : List Char} (h : '&' ∉ s) : EntitiesOnly s :=
  fun _ hrest => absurd (hrest.subset List.mem_cons_self) h

/-- A character is written as it is, or as an entity. -/
theorem escapeChar_cases (c : Char) :
    c ∉ '&' :: markup ∧ escapeChar c = [c] ∨ ∃ entity ∈ entities, escapeChar c = entity.toList := by
  rw [escapeChar, entityOf?.eq_def]
  split
  · exact .inr ⟨"&amp;", by decide, rfl⟩
  · exact .inr ⟨"&lt;", by decide, rfl⟩
  · exact .inr ⟨"&gt;", by decide, rfl⟩
  · exact .inr ⟨"&#92;", by decide, rfl⟩
  · exact .inr ⟨"&quot;", by decide, rfl⟩
  · exact .inl ⟨by simp_all [markup], rfl⟩

theorem not_mem_escapeChar {ch : Char} (h : ch ∈ markup) (c : Char) : ch ∉ escapeChar c := by
  have hentities : ∀ ch ∈ markup, ∀ entity ∈ entities, ch ∉ entity.toList := by
    simp [markup, entities]
  rcases escapeChar_cases c with ⟨hc, he⟩ | ⟨entity, hm, he⟩
  · rw [he, List.mem_singleton]
    rintro rfl
    exact hc (List.mem_cons_of_mem _ h)
  · rw [he]
    exact hentities ch h entity hm

theorem entitiesOnly_escapeChar (c : Char) : EntitiesOnly (escapeChar c) := by
  have htail : ∀ entity ∈ entities, '&' ∉ entity.toList.tail := by decide
  rcases escapeChar_cases c with ⟨hc, he⟩ | ⟨entity, hm, he⟩
  · rw [he]
    refine entitiesOnly_of_not_mem fun h => hc ?_
    rw [← List.mem_singleton.1 h]
    exact List.mem_cons_self
  · rw [he]
    intro rest hrest
    refine ⟨entity, hm, ?_⟩
    cases hl : entity.toList with
    | nil => exact List.nil_prefix
    | cons first tail =>
      -- There is no other ampersand in it.
      rw [hl] at hrest
      rcases List.suffix_cons_iff.1 hrest with heq | hsuffix
      · rw [heq]
      · have hnot := htail entity hm
        rw [hl] at hnot
        exact absurd (hsuffix.subset List.mem_cons_self) hnot

theorem not_mem_of_blank {ch : Char} (h : ch ∈ '&' :: markup) {s : List Char}
    (hs : s.all isInlineBlank = true) : ch ∉ s := by
  have hblank : ∀ ch ∈ '&' :: markup, isInlineBlank ch = false := by simp [markup, isInlineBlank]
  intro hm
  have htrue := List.all_eq_true.1 hs ch hm
  rw [hblank ch h] at htrue
  cases htrue

/-! ## Outputs -/

/-- A token of a template, or of the body of a partial that is expanded as the template is
    rendered. -/
def Involves (settings : Settings) (template : String) (data : Context) (token : Token) : Prop :=
  ∃ first l layer, Layer.start settings 0 template.toList [data] = .ok first ∧
    Layers.Leads settings ⟨first, []⟩ l ∧ layer ∈ l.top :: l.below ∧ token ∈ layer.tokens

variable {settings : Settings} {template : String} {data : Context} {out : String}

/-- Without unescaped variables, an output has a property that the texts have of which it is
    put together: escaped characters, blanks, and the texts of the templates. -/
theorem Additive.render {Q : List Char → Prop} (hQ : Additive Q) (he : ∀ c, Q (escapeChar c))
    (hb : ∀ s : List Char, s.all isInlineBlank = true → Q s) (hs : settings.escapeHtml = true)
    (hu : ∀ token, Involves settings template data token → token.kind ≠ .unescaped)
    (ht : ∀ token, Involves settings template data token → token.kind = .text → Q token.value)
    (h : render settings template data = .ok out) : Q out.toList := by
  rw [Mustache.render, renderAt_eq_result] at h
  cases hstart : Layer.start settings 0 template.toList [data] with
  | error e => rw [hstart] at h; cases h
  | ok first =>
    rw [hstart] at h
    obtain ⟨last, hleads, rfl⟩ :=
      Layers.exists_of_result_eq_ok ((Layers.result_of_nil first).trans h)
    obtain ⟨tokens, htokens, _, rfl⟩ := Layer.exists_of_start hstart
    have hread : Layers.Read settings ⟨⟨0, tokens.toArray, .start [data]⟩, []⟩ :=
      List.forall_mem_singleton.2 ⟨_, htokens⟩
    have hadds : ∀ later, Layers.Leads settings ⟨⟨0, tokens.toArray, .start [data]⟩, []⟩ later →
        ∀ token ∈ later.top.tokens, Adds Q token := by
      intro later hlater token hm
      have hinvolves : Involves settings template data token :=
        ⟨_, later, later.top, hstart, hlater, List.mem_cons_self, hm⟩
      obtain ⟨_, hlayer⟩ := hlater.read hread later.top List.mem_cons_self
      rw [Adds]
      cases hk : token.kind with
      | text => exact ht token hinvolves hk
      | indenter =>
        obtain ⟨i, hget⟩ := List.getElem?_of_mem (Array.mem_toList_iff.2 hm)
        exact hb _ ((indentersLead_of_tokenize hlayer).exists_of_indenter hget hk).2.1
      | unescaped => exact absurd hk (hu token hinvolves)
      | comment | escaped | opener | inverse | ender | expansion => trivial
    exact hleads.written hQ he hs hadds (List.forall_mem_singleton.2 hQ.nil) _ List.mem_cons_self

/-- If all variables are escaped, a character of markup that is in no text of a template, nor of
    the partials that are expanded in it, is not in the output, whatever the data is; and if no
    ampersand is in those texts, those of the output start entities. -/
theorem escaped_values_add_no_markup (hs : settings.escapeHtml = true)
    (hu : ∀ token, Involves settings template data token → token.kind ≠ .unescaped)
    (h : render settings template data = .ok out) :
    (∀ ch ∈ markup,
      (∀ token, Involves settings template data token → token.kind = .text → ch ∉ token.value) →
        ch ∉ out.toList) ∧
    ((∀ token, Involves settings template data token → token.kind = .text → '&' ∉ token.value) →
      EntitiesOnly out.toList) := by
  refine ⟨fun ch hch ht => ?_, fun ht => ?_⟩
  · exact (additive_not_mem ch).render (not_mem_escapeChar hch)
      (fun _ => not_mem_of_blank (List.mem_cons_of_mem _ hch)) hs hu ht h
  · exact additive_entitiesOnly.render entitiesOnly_escapeChar
      (fun _ hb => entitiesOnly_of_not_mem (not_mem_of_blank List.mem_cons_self hb)) hs hu
      (fun token hi hk => entitiesOnly_of_not_mem (ht token hi hk)) h

/-- The value of a variable in a partial is escaped. -/
theorem escaped_values_add_no_markup_in_partial :
    let settings : Settings := ⟨⟨"<%".toList, "%>".toList⟩, 1, true⟩
    let data : Context := .object [("p", .string "<%x%>"), ("x", .string "<&")]
    render settings "<%>p%>" data = .ok "&lt;&amp;" ∧
    (∀ token, Involves settings "<%>p%>" data token →
      token.kind = .expansion ∨ token.kind = .escaped) ∧
    '<' ∉ "&lt;&amp;".toList ∧ EntitiesOnly "&lt;&amp;".toList := by
  intro settings data
  let page : Layer := ⟨0, #[⟨.expansion, "p".toList, 1⟩], .start [data]⟩
  let body : Layer := ⟨1, #[⟨.escaped, "x".toList, 1⟩], .start [data]⟩
  let written : State := ⟨1, [data], [], none, "&lt;&amp;"⟩
  have hstart : Layer.start settings 0 "<%>p%>".toList [data] = .ok page := by cbv
  have hfirst : Layers.next settings ⟨page, []⟩ = .ok (.inr ⟨body, [page]⟩) := by cbv
  have hsecond : Layers.next settings ⟨body, [page]⟩ =
      .ok (.inr ⟨{ body with state := written }, [page]⟩) := by cbv
  have hthird : Layers.next settings ⟨{ body with state := written }, [page]⟩ =
      .ok (.inr ⟨{ page with state := written }, []⟩) := rfl
  have hlast : Layers.next settings ⟨{ page with state := written }, []⟩ =
      .ok (.inl "&lt;&amp;") := rfl
  have hleads : ∀ l, Layers.Leads settings ⟨page, []⟩ l → l = ⟨page, []⟩ ∨ l = ⟨body, [page]⟩ ∨
      l = ⟨{ body with state := written }, [page]⟩ ∨ l = ⟨{ page with state := written }, []⟩ := by
    intro l h
    induction h with
    | refl => exact .inl rfl
    | tail _ hnext ih =>
      rcases ih with rfl | rfl | rfl | rfl
      · cases hfirst.symm.trans hnext
        exact .inr (.inl rfl)
      · cases hsecond.symm.trans hnext
        exact .inr (.inr (.inl rfl))
      · cases hthird.symm.trans hnext
        exact .inr (.inr (.inr rfl))
      · cases hlast.symm.trans hnext
  have hkinds : ∀ token, Involves settings "<%>p%>" data token →
      token.kind = .expansion ∨ token.kind = .escaped := by
    rintro token ⟨first, l, layer, h, hl, hm, ht⟩
    cases hstart.symm.trans h
    have htokens : layer.tokens = page.tokens ∨ layer.tokens = body.tokens := by
      rcases hleads l hl with rfl | rfl | rfl | rfl <;> aesop
    rcases htokens with heq | heq
    · rw [heq] at ht
      exact .inl (by rw [List.mem_singleton.1 (Array.mem_toList_iff.2 ht)])
    · rw [heq] at ht
      exact .inr (by rw [List.mem_singleton.1 (Array.mem_toList_iff.2 ht)])
  have hrender : render settings "<%>p%>" data = .ok "&lt;&amp;" := by
    rw [render, renderAt_eq_evaluateAt]
    cbv
  have hnot : ∀ kind ∉ [Kind.expansion, .escaped], ∀ token,
      Involves settings "<%>p%>" data token → token.kind ≠ kind := by
    rintro kind hkind token htoken rfl
    exact hkind (by simpa using hkinds token htoken)
  obtain ⟨hmarkup, hentities⟩ :=
    escaped_values_add_no_markup rfl (hnot .unescaped (by decide)) hrender
  exact ⟨hrender, hkinds,
    hmarkup '<' (by decide) fun token htoken hk => absurd hk (hnot .text (by decide) token htoken),
    hentities fun token htoken hk => absurd hk (hnot .text (by decide) token htoken)⟩

end Mustache.Render
