import Mustache.Render.Run

/-!
# Runs of the machine

A *run* comes through states (`Reaches`) until a step fails or no token is left. A template
that stands at some depth of partials is run with what a partial in it stands for
(`expandAt`): a template in its own right, one level deeper, or a failure.

* `run_eq_error_iff`: a run fails iff a step fails that it comes to;
* `renderAt_eq_renderWith`: rendering at some depth, by what a partial stands for there.
-/

namespace Mustache.Render

open Template

section

variable (settings : Settings) (expansion : Expansion) {tokens : Array Token} {s : State}

theorem run_of_getElem? {token : Token} (h : tokens[s.cursor]? = some token) :
    run settings expansion tokens s =
      step settings expansion tokens s token >>= run settings expansion tokens := by
  obtain ⟨hlt, rfl⟩ := Array.getElem?_eq_some_iff.1 h
  rw [run, dif_pos hlt]
  cases step settings expansion tokens s tokens[s.cursor] <;> rfl

theorem run_of_size_le (h : tokens.size ≤ s.cursor) :
    run settings expansion tokens s = .ok s.output := by
  rw [run, dif_neg (Nat.not_lt.2 h)]

end

section

variable {settings settings' : Settings} {expansion expansion' : Expansion} {tokens : Array Token}

/-- Only at a partial does a step depend on what partials stand for. Of the settings it only
    depends on whether values are escaped. -/
theorem step_congr (hs : settings.escapeHtml = settings'.escapeHtml) {s : State} {token : Token}
    (hk : token.kind ≠ .expansion) :
    step settings expansion tokens s token = step settings' expansion' tokens s token := by
  rw [step, step, hs]
  cases h : token.kind <;> first | rfl | exact absurd h hk

/-- So does a run without partials. -/
theorem run_congr (hs : settings.escapeHtml = settings'.escapeHtml)
    (hn : ∀ token ∈ tokens, token.kind ≠ .expansion) (s : State) :
    run settings expansion tokens s = run settings' expansion' tokens s := by
  have hstep : ∀ (s : State) (h : s.cursor < tokens.size),
      step settings expansion tokens s tokens[s.cursor] =
        step settings' expansion' tokens s tokens[s.cursor] :=
    fun s h => step_congr hs (hn _ (Array.getElem_mem h))
  fun_induction run settings expansion tokens s with
  | case1 s h e herror =>
    rw [run_of_getElem? settings' expansion' (Array.getElem?_eq_getElem h), ← hstep s h, herror]
    rfl
  | case2 s h t hnext ih =>
    rw [run_of_getElem? settings' expansion' (Array.getElem?_eq_getElem h), ← hstep s h, hnext, ih]
    rfl
  | case3 s h => rw [run_of_size_le settings' expansion' (Nat.not_lt.1 h)]

end

/-! ## The states of a run -/

/-- The states that a run comes through. -/
inductive Reaches (settings : Settings) (expansion : Expansion) (tokens : Array Token)
    (first : State) : State → Prop
  | refl : Reaches settings expansion tokens first first
  | step {s t : State} {token : Token} : Reaches settings expansion tokens first s →
      tokens[s.cursor]? = some token → step settings expansion tokens s token = .ok t →
      Reaches settings expansion tokens first t

section

variable {settings : Settings} {expansion : Expansion} {tokens : Array Token} {s t u : State}

theorem Reaches.trans (hst : Reaches settings expansion tokens s t)
    (htu : Reaches settings expansion tokens t u) : Reaches settings expansion tokens s u := by
  induction htu with
  | refl => exact hst
  | step _ hget hstep ih => exact ih.step hget hstep

/-- The rest of a run has the same result. -/
theorem Reaches.run_eq (h : Reaches settings expansion tokens s t) :
    run settings expansion tokens s = run settings expansion tokens t := by
  induction h with
  | refl => rfl
  | step _ hget hstep ih => rw [ih, run_of_getElem? settings expansion hget, hstep]; rfl

/-- A run that fails comes to a step that does. -/
theorem exists_step_eq_error {e : TemplateError}
    (h : run settings expansion tokens s = .error e) :
    ∃ t token, Reaches settings expansion tokens s t ∧ tokens[t.cursor]? = some token ∧
      step settings expansion tokens t token = .error e := by
  fun_induction run settings expansion tokens s with
  | case1 s hlt e' hstep =>
    cases h
    exact ⟨s, tokens[s.cursor], .refl, Array.getElem?_eq_getElem hlt, hstep⟩
  | case2 s hlt next hstep ih =>
    obtain ⟨t, token, hreach, hget, herror⟩ := ih h
    have hnext : Reaches settings expansion tokens s next :=
      .step .refl (Array.getElem?_eq_getElem hlt) hstep
    exact ⟨t, token, hnext.trans hreach, hget, herror⟩
  | case3 => cases h

/-- A run fails iff a step fails that it comes to. -/
theorem run_eq_error_iff {e : TemplateError} :
    run settings expansion tokens s = .error e ↔
      ∃ t token, Reaches settings expansion tokens s t ∧ tokens[t.cursor]? = some token ∧
        step settings expansion tokens t token = .error e := by
  refine ⟨exists_step_eq_error, ?_⟩
  rintro ⟨t, token, hreach, hget, herror⟩
  rw [hreach.run_eq, run_of_getElem? settings expansion hget, herror]
  rfl

end

/-! ## Partials at a depth -/

/-- What a partial stands for in a template that is rendered at some depth. -/
def expandAt (settings : Settings) (depth : Nat) : Expansion := fun name body scopes =>
  if depth < settings.maxPartialDepth then renderAt settings (depth + 1) body scopes
  else .error (.partialTooDeep name settings.maxPartialDepth)

/-- A template at some depth is rendered with what a partial stands for there. -/
theorem renderAt_eq_renderWith (settings : Settings) (depth : Nat) :
    renderAt settings depth = renderWith settings (expandAt settings depth) := by
  funext template scopes
  have hexpand : ∀ levels, settings.maxPartialDepth - depth = levels →
      renderWithin settings levels template scopes =
        renderWith settings (expandAt settings depth) template scopes := by
    intro levels hl
    cases levels with
    | zero =>
      rw [renderWithin]
      congr 1
      funext name body scopes
      rw [expandAt, if_neg (by omega)]
    | succ levels =>
      -- One level deeper, the levels left are one less.
      have hnext : settings.maxPartialDepth - (depth + 1) = levels := by omega
      rw [renderWithin]
      congr 1
      funext name body scopes
      rw [expandAt, if_pos (by omega), renderAt, hnext]
  exact hexpand _ rfl

end Mustache.Render
