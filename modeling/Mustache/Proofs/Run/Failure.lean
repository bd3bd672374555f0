import Mathlib
import Mustache.Proofs.Run
import Mustache.Proofs.Run.Moves

/-!
# What can go wrong in a run

Whatever the data is, the sections that the machine has open are those that enclose its
cursor in the template (`Aligned`): it is so at the start, and every move keeps it so. In a
template that passes the check, a section can therefore always be passed over, and a closing
tag always finds its section open.

* `step_eq_error_iff`: the only step that fails is one at a partial that fails;
* `run_eq_error_iff_expansion`: so a run fails iff it comes to such a partial, and what else is
  wrong with a template shows before any of it is rendered, with all data.
-/

namespace Mustache.Render

open Template

/-! ## Open sections -/

/-- An open section is the one whose opening tag stands at an index: it has its name, and
    starts again right behind it. -/
def StandsAt (tokens : List Token) (k : Nat) (o : Opened) : Prop :=
  ∃ opener, tokens[k]? = some opener ∧ opener.kind.role = .opens ∧ o.name = opener.value ∧
    ∀ items start remaining, o.frame = .loop items start remaining → start = k + 1

/-- The sections that the machine has open are those that enclose its cursor. -/
def Aligned (tokens : List Token) (s : State) : Prop :=
  List.Forall₂ (StandsAt tokens) (Sections.enclosing tokens s.cursor) s.opened

section

variable {tokens : List Token} {token : Token} {s t : State}

theorem aligned_start (scopes : List Context) : Aligned tokens (.start scopes) :=
  .nil

/-- A section that is moved into is the innermost one around the cursor. -/
theorem aligned_enter (ha : Aligned tokens s) (hget : tokens[s.cursor]? = some token)
    (hr : token.kind.role = .opens) {frame : Frame}
    (hf : ∀ items start remaining, frame = .loop items start remaining → start = s.cursor + 1)
    (scopes : List Context) : Aligned tokens (s.enter token.value frame scopes) := by
  have hstands : StandsAt tokens s.cursor ⟨token.value, frame⟩ := ⟨token, hget, hr, rfl, hf⟩
  rw [Aligned]
  show List.Forall₂ _ (Sections.enclosing tokens (s.cursor + 1)) _
  rw [Sections.enclosing_succ_opens hget hr]
  exact .cons hstands ha

/-- Every move keeps the open sections with the cursor. -/
theorem Moves.aligned (hc : Sections.check tokens = .ok ()) (ha : Aligned tokens s)
    (hget : tokens[s.cursor]? = some token) (hm : Moves tokens.toArray s token t) :
    Aligned tokens t := by
  cases hm with
  | stay hr hcursor _ hopened =>
    rw [Aligned, hcursor, Sections.enclosing_succ_stays hget hr, hopened]
    exact ha
  | skip hr hi =>
    -- Behind the closing tag the same sections are open as in front of the opening one.
    obtain ⟨j, hj, _, he⟩ := Sections.exists_closing? hc hget hr
    obtain rfl := Option.some.inj (hi.symm.trans hj)
    show List.Forall₂ _ (Sections.enclosing tokens _) _
    rw [he]
    exact ha
  | pass hr => exact aligned_enter ha hget hr (by simp) _
  | scope hr => exact aligned_enter ha hget hr (by simp) _
  | loop hr =>
    refine aligned_enter ha hget hr (fun items start remaining h => ?_) _
    cases h
    rfl
  | leave hr ho =>
    rw [Aligned, ho] at ha
    obtain ⟨k, outer, _, houter, he⟩ := List.forall₂_cons_right_iff.1 ha
    show List.Forall₂ _ (Sections.enclosing tokens _) _
    rw [Sections.enclosing_succ_closes hget hr, he]
    exact houter
  | again hr ho _ =>
    rw [Aligned, ho] at ha
    obtain ⟨k, outer, ⟨opener, hopener, hropener, hname, hstart⟩, houter, he⟩ :=
      List.forall₂_cons_right_iff.1 ha
    obtain rfl := hstart _ _ _ rfl
    -- Right behind the opening tag, the section and those around it are open again.
    show List.Forall₂ _ (Sections.enclosing tokens _) _
    rw [Sections.enclosing_succ_opens hopener hropener, (Sections.enclosing_of_cons he).2]
    refine .cons ⟨opener, hopener, hropener, hname, fun items start remaining h => ?_⟩ houter
    cases h
    rfl

/-- A section can always be passed over. -/
theorem exists_skip (hc : Sections.check tokens = .ok ())
    (hget : tokens[s.cursor]? = some token) (hr : token.kind.role = .opens) :
    ∃ t, s.skip tokens.toArray token = .ok t := by
  obtain ⟨j, hj, _⟩ := Sections.exists_closing? hc hget hr
  exact ⟨{ s with cursor := j + 1 }, by rw [State.skip, hj]⟩

/-- A section is either passed over or moved into. -/
theorem exists_openSection (hc : Sections.check tokens = .ok ())
    (hget : tokens[s.cursor]? = some token) (hr : token.kind.role = .opens) :
    ∃ t, s.openSection tokens.toArray token = .ok t := by
  obtain ⟨skipped, hskip⟩ := exists_skip hc hget hr
  rw [State.openSection, hskip]
  rcases Context.resolve s.scopes token.value with _ | _ | (_ | _) | value
  · exact ⟨_, rfl⟩
  · exact ⟨_, rfl⟩
  · exact ⟨_, rfl⟩
  · exact ⟨_, rfl⟩
  · cases hv : value.truthy with
    | false => exact ⟨skipped, by simp [hv]⟩
    | true => exact ⟨_, by simp only [hv, if_true]; rfl⟩

theorem exists_openInverse (hc : Sections.check tokens = .ok ())
    (hget : tokens[s.cursor]? = some token) (hr : token.kind.role = .opens) :
    ∃ t, s.openInverse tokens.toArray token = .ok t := by
  obtain ⟨skipped, hskip⟩ := exists_skip hc hget hr
  rw [State.openInverse, hskip]
  cases (Context.resolve s.scopes token.value).any (·.truthy) with
  | false => exact ⟨_, rfl⟩
  | true => exact ⟨_, rfl⟩

theorem exists_close_of_opened {frame : Frame} {outer : List Opened}
    (ho : s.opened = ⟨token.value, frame⟩ :: outer) : ∃ t, s.close token = .ok t := by
  simp only [State.close, ho, ne_eq, not_true, if_false]
  cases frame with
  | pass => exact ⟨_, rfl⟩
  | scope => exact ⟨_, rfl⟩
  | loop items start remaining =>
    dsimp only
    cases items[items.size - (remaining - 1)]? with
    | none => exact ⟨_, rfl⟩
    | some item => exact ⟨_, rfl⟩

/-- A closing tag always finds its section open. -/
theorem exists_close (hc : Sections.check tokens = .ok ()) (ha : Aligned tokens s)
    (hget : tokens[s.cursor]? = some token) (hr : token.kind.role = .closes) :
    ∃ t, s.close token = .ok t := by
  -- The check has found the section with this name to be the innermost one.
  obtain ⟨k, outer, opener, he, hopener, hv⟩ := Sections.exists_enclosing_of_closes hc hget hr
  rw [Aligned, he] at ha
  obtain ⟨⟨name, frame⟩, rest, ⟨_, hopener', _, hname, _⟩, _, ho⟩ := List.forall₂_cons_left_iff.1 ha
  obtain rfl := Option.some.inj (hopener.symm.trans hopener')
  obtain rfl : name = token.value := hname.trans hv
  exact exists_close_of_opened ho

variable {settings : Settings} {expansion : Expansion}

/-- In every state of a run, the open sections are those around the cursor. -/
theorem Reaches.aligned (hc : Sections.check tokens = .ok ()) {scopes : List Context}
    (h : Reaches settings expansion tokens.toArray (.start scopes) s) : Aligned tokens s := by
  induction h with
  | refl => exact aligned_start scopes
  | step _ hget hstep ih =>
    rw [List.getElem?_toArray] at hget
    exact (moves_of_step hstep).aligned hc ih hget

/-! ## Failing steps -/

/-- A step that fails is one at a partial that fails. -/
theorem step_eq_error_iff (hc : Sections.check tokens = .ok ()) (ha : Aligned tokens s)
    (hget : tokens[s.cursor]? = some token) {e : TemplateError} :
    step settings expansion tokens.toArray s token = .error e ↔
      token.kind = .expansion ∧ expansion token.value (partialBody s.indentation
        (Context.resolveText s.scopes token.value).toList) s.scopes = .error e := by
  rw [step]
  cases hk : token.kind with
  | text | comment | escaped | unescaped | indenter => simp
  | opener =>
    obtain ⟨t, ht⟩ := exists_openSection hc hget (by rw [hk, Kind.role])
    simp [ht]
  | inverse =>
    obtain ⟨t, ht⟩ := exists_openInverse hc hget (by rw [hk, Kind.role])
    simp [ht]
  | ender =>
    obtain ⟨t, ht⟩ := exists_close hc ha hget (by rw [hk, Kind.role])
    simp [ht]
  | expansion =>
    rw [State.expand]
    cases expansion token.value (partialBody s.indentation
      (Context.resolveText s.scopes token.value).toList) s.scopes <;> simp [Except.map]

end

/-! ## Rendering -/

section

variable {settings : Settings} {expansion : Expansion} {template : List Char}
  {scopes : List Context} {tokens : List Token} {e : TemplateError}

theorem renderWith_of_tokenize (h : tokenize settings.delimiters template = .ok tokens) :
    renderWith settings expansion template scopes =
      Sections.check tokens >>= fun _ => run settings expansion tokens.toArray (.start scopes) := by
  rw [renderWith, h]
  rfl

theorem renderWith_of_tokenize_eq_error
    (h : tokenize settings.delimiters template = .error e) :
    renderWith settings expansion template scopes = .error e := by
  rw [renderWith, h]
  rfl

/-- A run over a template that passes the check fails iff it comes to a partial that fails. -/
theorem run_eq_error_iff_expansion (hc : Sections.check tokens = .ok ()) :
    run settings expansion tokens.toArray (.start scopes) = .error e ↔
      ∃ s token, Reaches settings expansion tokens.toArray (.start scopes) s ∧
        tokens[s.cursor]? = some token ∧ token.kind = .expansion ∧
        expansion token.value (partialBody s.indentation
          (Context.resolveText s.scopes token.value).toList) s.scopes = .error e := by
  rw [run_eq_error_iff]
  refine exists_congr fun s => exists_congr fun token => and_congr_right fun hreach => ?_
  rw [List.getElem?_toArray]
  exact and_congr_right fun hget => step_eq_error_iff hc (hreach.aligned hc) hget

/-- Without partials, a run over a template that passes the check succeeds. -/
theorem exists_run_eq_ok (hc : Sections.check tokens = .ok ())
    (hn : ∀ token ∈ tokens, token.kind ≠ .expansion) :
    ∃ out, run settings expansion tokens.toArray (.start scopes) = .ok out := by
  cases hrun : run settings expansion tokens.toArray (.start scopes) with
  | ok out => exact ⟨out, rfl⟩
  | error e =>
    obtain ⟨_, token, _, hget, hk, _⟩ := (run_eq_error_iff_expansion hc).1 hrun
    exact absurd hk (hn token (List.mem_of_getElem? hget))

end

/-- What is wrong with the structure of a template shows before any of it is rendered, and with
    all data. In a run over a template whose structure is right, every section can be passed
    over and every closing tag finds its section open, so that only partials can fail. -/
theorem structural_errors_precede_data (settings : Settings) (template : String) :
    (∀ e, tokenize settings.delimiters template.toList = .error e →
      ∀ data, render settings template data = .error e) ∧
    ∀ tokens, tokenize settings.delimiters template.toList = .ok tokens →
      (∀ e, Sections.check tokens = .error e → ∀ data, render settings template data = .error e) ∧
      (Sections.check tokens = .ok () → ∀ data,
        (∀ s token, Reaches settings (expandAt settings 0) tokens.toArray (.start [data]) s →
          tokens[s.cursor]? = some token →
            (token.kind.role = .opens → ∃ t, s.skip tokens.toArray token = .ok t) ∧
            (token.kind.role = .closes → ∃ t, s.close token = .ok t)) ∧
        (∀ e, render settings template data = .error e ↔
          ∃ s token, Reaches settings (expandAt settings 0) tokens.toArray (.start [data]) s ∧
            tokens[s.cursor]? = some token ∧ token.kind = .expansion ∧
            expandAt settings 0 token.value (partialBody s.indentation
              (Context.resolveText s.scopes token.value).toList) s.scopes = .error e) ∧
        ((∀ token ∈ tokens, token.kind ≠ .expansion) →
          ∃ out, render settings template data = .ok out)) := by
  simp only [render, renderAt_eq_renderWith]
  refine ⟨fun e he data => renderWith_of_tokenize_eq_error he, fun tokens ht => ?_⟩
  simp only [renderWith_of_tokenize ht]
  refine ⟨fun e he data => by rw [he]; rfl, fun hc data => ?_⟩
  rw [hc]
  refine ⟨fun s token hreach hget => ⟨exists_skip hc hget, ?_⟩, ?_, exists_run_eq_ok hc⟩
  · exact exists_close hc (hreach.aligned hc) hget
  · exact fun e => run_eq_error_iff_expansion hc

/-- An unclosed tag and an unclosed section are refused with all data, and sections that close
    each other in turn are shown with all data. -/
theorem structural_errors_precede_data_unclosed_and_nested :
    let settings : Settings := ⟨⟨"<%".toList, "%>".toList⟩, 1, true⟩
    let tokens : List Token := [⟨.opener, "a".toList, 1⟩, ⟨.inverse, "b".toList, 1⟩,
      ⟨.text, "x".toList, 1⟩, ⟨.ender, "b".toList, 1⟩, ⟨.ender, "a".toList, 1⟩]
    (∀ data, render settings "x\n<%a" data =
      .error (.malformed (.unclosedTag "%>".toList) 2)) ∧
    (∀ data, render settings "<%#a%>x" data = .error (.unclosedSection "a".toList 1)) ∧
    tokenize settings.delimiters "<%#a%><%^b%>x<%/b%><%/a%>".toList = .ok tokens ∧
    Sections.check tokens = .ok () ∧
    ∀ data, ∃ out, render settings "<%#a%><%^b%>x<%/b%><%/a%>" data = .ok out := by
  have hunclosed : tokenize ⟨"<%".toList, "%>".toList⟩ "x\n<%a".toList =
      .error (.malformed (.unclosedTag "%>".toList) 2) := by cbv
  have hopen : tokenize ⟨"<%".toList, "%>".toList⟩ "<%#a%>x".toList =
      .ok [⟨.opener, "a".toList, 1⟩, ⟨.text, "x".toList, 1⟩] := by cbv
  have hnested : tokenize ⟨"<%".toList, "%>".toList⟩ "<%#a%><%^b%>x<%/b%><%/a%>".toList =
      .ok [⟨.opener, "a".toList, 1⟩, ⟨.inverse, "b".toList, 1⟩, ⟨.text, "x".toList, 1⟩,
        ⟨.ender, "b".toList, 1⟩, ⟨.ender, "a".toList, 1⟩] := by cbv
  refine ⟨(structural_errors_precede_data ⟨_, 1, true⟩ "x\n<%a").1 _ hunclosed, ?_, hnested, rfl,
    fun data => ?_⟩
  · exact ((structural_errors_precede_data ⟨_, 1, true⟩ "<%#a%>x").2 _ hopen).1 _ rfl
  · refine (((structural_errors_precede_data ⟨_, 1, true⟩ _).2 _ hnested).2 rfl data).2.2 ?_
    decide

end Mustache.Render
