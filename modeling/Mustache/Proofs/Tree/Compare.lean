import Mustache.Proofs.Run.Failure
import Mustache.Proofs.Tree.Run

/-!
# Comparing results

Two renderings are compared by a relation between their results. If it goes through sequences
(`Sequential`), it is enough to compare what partials stand for, as everything else in a
template is put together in the same way (`Sequential.evaluateAll`). So a template can be
compared with itself, nested less deeply in others (`Sequential.renderWithin`).

* `keeps_renderAt`: a template has the same output at a lesser depth.
-/

namespace Mustache.Render

open Template

/-- A relation between results that goes through sequences: results are related if they start
    with related ones and go on, from the output of the first, with related ones. -/
structure Sequential (H : Except TemplateError String → Except TemplateError String → Prop) :
    Prop where
  refl : ∀ x, H x x
  bind : ∀ {x y : Except TemplateError String} {f g : String → Except TemplateError String},
    H x y → (∀ out, x = .ok out → H (f out) (g out)) → H (x >>= f) (y >>= g)

/-- The second result is the output of the first, unless that one fails. -/
def Keeps (x y : Except TemplateError String) : Prop :=
  ∀ out, x = .ok out → y = .ok out

theorem sequential_eq : Sequential (· = ·) where
  refl _ := rfl
  bind {x y f g} h hfg := by
    subst h
    cases x with
    | error e => rfl
    | ok out => exact hfg out rfl

theorem sequential_keeps : Sequential Keeps where
  refl _ _ h := h
  bind {x y f g} h hfg out hout := by
    cases x with
    | error e => cases hout
    | ok first =>
      rw [h first rfl]
      exact hfg first rfl out hout

section

variable {H : Except TemplateError String → Except TemplateError String → Prop}

theorem Sequential.inOrder (hH : Sequential H) {f g : Context → Except TemplateError String}
    (hfg : ∀ item, H (f item) (g item)) (items : List Context) :
    H (inOrder f items) (inOrder g items) := by
  induction items with
  | nil => exact hH.refl _
  | cons item items ih =>
    exact hH.bind (hfg item) fun _ _ => hH.bind ih fun _ _ => hH.refl _

variable {settings settings' : Settings} {expansion expansion' : Expansion}

mutual
/-- If what partials stand for is related, then so is what a piece evaluates to. -/
theorem Sequential.evaluate (hH : Sequential H) (hs : settings.escapeHtml = settings'.escapeHtml)
    (he : ∀ name body scopes, H (expansion name body scopes) (expansion' name body scopes)) :
    ∀ (piece : Piece) (scopes : List Context),
      H (evaluate settings expansion piece scopes) (evaluate settings' expansion' piece scopes)
  | .text _, _ => hH.refl _
  | .remark, _ => hH.refl _
  | .value _ _, _ => by
    rw [Render.evaluate, Render.evaluate, hs]
    exact hH.refl _
  | .block key body, scopes => by
    have hbody := Sequential.evaluateAll hH hs he body
    rw [Render.evaluate, Render.evaluate]
    cases Context.resolve scopes key with
    | none => exact hH.refl _
    | some value =>
      cases value with
      | object entries => exact hbody _
      | array items => exact hH.inOrder (fun item => hbody (item :: scopes)) items
      | scalar value =>
        simp only
        split
        · exact hbody scopes
        · exact hH.refl _
  | .inverse key body, scopes => by
    have hbody := Sequential.evaluateAll hH hs he body scopes
    rw [Render.evaluate, Render.evaluate]
    cases Context.resolve scopes key with
    | none => exact hbody
    | some value =>
      simp only
      split
      · exact hH.refl _
      · exact hbody
  | .expansion _ _, _ => hH.bind (he _ _ _) fun _ _ => hH.refl _

/-- If what partials stand for is related, then so is what some pieces evaluate to. -/
theorem Sequential.evaluateAll (hH : Sequential H)
    (hs : settings.escapeHtml = settings'.escapeHtml)
    (he : ∀ name body scopes, H (expansion name body scopes) (expansion' name body scopes)) :
    ∀ (pieces : List Piece) (scopes : List Context),
      H (evaluateAll settings expansion pieces scopes)
        (evaluateAll settings' expansion' pieces scopes)
  | [], _ => hH.refl _
  | piece :: pieces, scopes =>
    hH.bind (Sequential.evaluate hH hs he piece scopes) fun _ _ =>
      hH.bind (Sequential.evaluateAll hH hs he pieces scopes) fun _ _ => hH.refl _
end

/-! ## Templates -/

/-- The result for a template that is read properly is that for its tree. -/
theorem renderWith_of_check {template : List Char} {tokens : List Token}
    (ht : tokenize settings.delimiters template = .ok tokens)
    (hc : Sections.check tokens = .ok ()) (scopes : List Context) :
    renderWith settings expansion template scopes =
      evaluateAll settings expansion (nest tokens) scopes := by
  rw [renderWith_of_tokenize ht, hc]
  exact run_nests (nests_nest (indentersLead_of_tokenize ht) hc) scopes

/-- A template that is rendered is read properly, and its tree is evaluated. -/
theorem exists_of_renderWith_eq_ok {template : List Char} {scopes : List Context} {out : String}
    (h : renderWith settings expansion template scopes = .ok out) :
    ∃ tokens, tokenize settings.delimiters template = .ok tokens ∧
      Sections.check tokens = .ok () ∧
      evaluateAll settings expansion (nest tokens) scopes = .ok out := by
  have hread := h
  rw [renderWith] at hread
  obtain ⟨tokens, ht, hread⟩ := bind_eq_ok_iff.1 hread
  obtain ⟨_, hc, _⟩ := bind_eq_ok_iff.1 hread
  exact ⟨tokens, ht, hc, (renderWith_of_check ht hc scopes).symm.trans h⟩

theorem Sequential.renderWith (hH : Sequential H)
    (hd : settings.delimiters = settings'.delimiters)
    (hs : settings.escapeHtml = settings'.escapeHtml)
    (he : ∀ name body scopes, H (expansion name body scopes) (expansion' name body scopes))
    (template : List Char) (scopes : List Context) :
    H (renderWith settings expansion template scopes)
      (renderWith settings' expansion' template scopes) := by
  cases ht : tokenize settings.delimiters template with
  | error e =>
    rw [renderWith_of_tokenize_eq_error ht, renderWith_of_tokenize_eq_error (hd ▸ ht)]
    exact hH.refl _
  | ok tokens =>
    cases hc : Sections.check tokens with
    | error e =>
      rw [renderWith_of_tokenize ht, renderWith_of_tokenize (hd ▸ ht), hc]
      exact hH.refl _
    | ok =>
      rw [renderWith_of_check ht hc, renderWith_of_check (hd ▸ ht) hc]
      exact hH.evaluateAll hs he _ _

/-- If going too deep is related to whatever comes of it, then so is what comes of a template
    with some levels left for partials to what comes of it with more of them left. -/
theorem Sequential.renderWithin (hH : Sequential H)
    (hdeep : ∀ name depth result, H (.error (.partialTooDeep name depth)) result)
    (hd : settings.delimiters = settings'.delimiters)
    (hs : settings.escapeHtml = settings'.escapeHtml) {levels levels' : Nat}
    (hl : levels ≤ levels') (template : List Char) (scopes : List Context) :
    H (renderWithin settings levels template scopes)
      (renderWithin settings' levels' template scopes) := by
  induction levels generalizing levels' template scopes with
  | zero =>
    rw [Render.renderWithin, Render.renderWithin.eq_def]
    cases levels' <;> exact hH.renderWith hd hs (fun _ _ _ => hdeep _ _ _) _ _
  | succ levels ih =>
    cases levels' with
    | zero => omega
    | succ levels' =>
      have hle : levels ≤ levels' := by omega
      exact hH.renderWith hd hs (fun _ body scopes => ih hle body scopes) _ _

/-- A template that is rendered at some depth has the same output at a lesser depth. -/
theorem keeps_renderAt (settings : Settings) {depth depth' : Nat} (h : depth' ≤ depth)
    (template : List Char) (scopes : List Context) :
    Keeps (renderAt settings depth template scopes) (renderAt settings depth' template scopes) :=
  sequential_keeps.renderWithin (fun _ _ _ _ h => nomatch h) rfl rfl (by omega) template scopes

end

end Mustache.Render
