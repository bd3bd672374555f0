import Mustache.Proofs.Indenters
import Mustache.Proofs.Reading.Lines
import Mustache.Proofs.Reading.Progress

/-!
# Tokens in the source, whatever the delimiters

Each token comes from a call of the scanner, and what the calls before it have gone through is the
source in front of the token (`FoundBehind`). No delimiters are ruled out here, not even empty ones
or such as hold blanks and line feeds, between which a template may have no proper reading.

* `isTag_behind_text`: next to a text there is no other text;
* `exists_line_of_standing?`: the blanks in front of a tag that stands alone are all that is in
  front of it on its line of the source.
-/

namespace Mustache.Template

namespace Scanner

variable {s s' : Scanner} {token : Token} {early later : List Token}

theorem exists_next_of_tokens_cons (h : s.tokens = .ok (token :: later)) :
    ∃ s', s.next = some (.ok token, s') ∧ s'.tokens = .ok later := by
  rw [tokens_eq] at h
  split at h
  · cases h
  · cases h
  · next hnext =>
    obtain ⟨_, hlater, he⟩ := map_eq_ok_iff.1 h
    cases he
    exact ⟨_, hnext, hlater⟩

/-- The calls that yield the first of some tokens come to a scanner that yields the others. -/
theorem exists_produces_of_tokens (h : s.tokens = .ok (early ++ later)) :
    ∃ s', s.Produces (early.map .ok) s' ∧ s'.tokens = .ok later := by
  induction early generalizing s with
  | nil => exact ⟨s, .stop, h⟩
  | cons token early ih =>
    obtain ⟨s₁, hnext, hlater⟩ := exists_next_of_tokens_cons h
    obtain ⟨s', hproduces, hs'⟩ := ih hlater
    exact ⟨s', .call hnext hproduces, hs'⟩

theorem Produces.append {last : Scanner} {items items' : List (Except TemplateError Token)}
    (h : s.Produces items s') (h' : s'.Produces items' last) :
    s.Produces (items ++ items') last := by
  induction h with
  | stop => exact h'
  | call hnext _ ih => exact .call hnext (ih h')

/-- Behind a text the scanner is at a tag, or at the end of the template. -/
theorem of_next_text (h : s.next = some (.ok token, s')) (hk : token.kind = .text) :
    s.rest = token.value ++ s'.rest ∧ s'.phase ≠ .text := by
  rcases next_cases h with ⟨_, -, htag⟩ | ⟨text, -, htext, he⟩
  · exact absurd hk (isTag_of_passTag htag).1
  · cases he
    have hrest := s.passText_rest
    have hphase : s.passText.2.phase ≠ .text := by
      simp only [passText]
      split <;> exact Phase.noConfusion
    rw [htext] at hrest hphase
    exact ⟨hrest.symm, hphase⟩

/-- What the scanner yields next, where it is not at a text, is a tag. -/
theorem isTag_of_next (h : s.next = some (.ok token, s')) (hs : s.phase ≠ .text) :
    token.kind ≠ .text := by
  rw [next] at h
  split at h
  · cases h
  · exact (isTag_of_passTag (Option.some.inj h)).1
  · next hphase => exact absurd hphase hs

end Scanner

/-- The scanner of a template comes to a token behind the text `before`. -/
def FoundBehind (d : Delimiters) (template before : List Char) (token : Token) : Prop :=
  ∃ items s s', (Scanner.start d template).Produces items s ∧ template = before ++ s.rest ∧
    s.next = some (.ok token, s')

section

variable {d : Delimiters} {template : List Char} {early later : List Token} {text tag : Token}

/-- A token comes from a call behind the calls that yield the tokens in front of it. -/
theorem exists_call (h : scan d template = .ok (early ++ tag :: later)) :
    ∃ before s s', (Scanner.start d template).Produces (early.map .ok) s ∧
      template = before ++ s.rest ∧ s.next = some (.ok tag, s') ∧ s'.tokens = .ok later ∧
      (early = [] → before = []) := by
  obtain ⟨s, hproduces, hs⟩ := Scanner.exists_produces_of_tokens h
  obtain ⟨s', hnext, hlater⟩ := Scanner.exists_next_of_tokens_cons hs
  obtain ⟨before, hbefore⟩ := hproduces.rest_suffix
  refine ⟨before, s, s', hproduces, hbefore.symm, hnext, hlater, ?_⟩
  rintro rfl
  cases hproduces
  exact List.append_left_eq_self.1 hbefore

/-- Next to a text there is no other text. -/
theorem isTag_behind_text (h : scan d template = .ok (early ++ text :: tag :: later))
    (hk : text.kind = .text) : tag.kind ≠ .text := by
  obtain ⟨_, _, _, -, -, hnext, hs, -⟩ := exists_call h
  obtain ⟨_, hnext', -⟩ := Scanner.exists_next_of_tokens_cons hs
  exact Scanner.isTag_of_next hnext' (Scanner.of_next_text hnext hk).2

/-- A tag is found right behind the text in front of it. -/
theorem exists_foundBehind_text (h : scan d template = .ok (early ++ text :: tag :: later))
    (hk : text.kind = .text) :
    ∃ before, FoundBehind d template (before ++ text.value) tag ∧ (early = [] → before = []) := by
  obtain ⟨before, s, s₁, hproduces, hsource, hnext, hs, hfirst⟩ := exists_call h
  obtain ⟨s', hnext', -⟩ := Scanner.exists_next_of_tokens_cons hs
  rw [(Scanner.of_next_text hnext hk).1, ← List.append_assoc] at hsource
  exact ⟨before, ⟨_, s₁, s', hproduces.append (.call hnext .stop), hsource, hnext'⟩, hfirst⟩

/-- The blanks that a text ends with, if nothing else is behind the last line feed, or in the
    template so far. -/
theorem indentBefore_cons_eq_some_iff {indent : List Char} :
    indentBefore (text :: early) = some indent ↔
      text.kind = .text ∧ ('\n' ∈ text.value ∨ early = []) ∧
        Text.lastLine text.value = indent ∧ indent.all isInlineBlank = true := by
  have hl : (text.value.reverse.takeWhile (· != '\n')).reverse = Text.lastLine text.value := rfl
  simp only [indentBefore, hl, Bool.or_eq_true, List.contains_iff_mem, List.isEmpty_iff]
  split
  · next hc =>
    constructor
    · rintro ⟨⟩
      exact ⟨hc.1, hc.2.1, rfl, hc.2.2⟩
    · rintro ⟨-, -, rfl, -⟩
      rfl
  · next hc =>
    constructor
    · rintro ⟨⟩
    · rintro ⟨hk, hline, rfl, hblank⟩
      exact absurd ⟨hk, hline, hblank⟩ hc

/-- The blanks in front of a tag that stands alone are all that is in front of it on its line. -/
theorem exists_line_of_standing? (h : scan d template = .ok (early.reverse ++ tag :: later))
    {s : Standing} (hs : standing? early tag later = some s) :
    ∃ before, FoundBehind d template before tag ∧ Text.lastLine before = s.indent := by
  have hindent := (standing?_eq_some_iff.1 hs).2.1
  cases early with
  | nil =>
    obtain ⟨before, s₀, s', hproduces, hsource, hnext, -, hfirst⟩ := exists_call h
    obtain rfl := hfirst rfl
    exact ⟨[], ⟨_, s₀, s', hproduces, hsource, hnext⟩, Option.some.inj hindent⟩
  | cons text early =>
    obtain ⟨hk, hline, hlast, -⟩ := indentBefore_cons_eq_some_iff.1 hindent
    rw [List.reverse_cons, List.append_assoc] at h
    obtain ⟨before, hfound, hbefore⟩ := exists_foundBehind_text h hk
    refine ⟨before ++ text.value, hfound, ?_⟩
    rcases hline with hmem | rfl
    · rw [Text.lastLine_append_of_mem hmem, hlast]
    · rw [hbefore rfl, List.nil_append, hlast]

end

end Mustache.Template
