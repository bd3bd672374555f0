import Mathlib
import Mustache.Template.Standalone

/-!
# Calls of the scanner

A scanner is called for one item after the other: a token, or what is wrong with the next tag
(`Scanner.Produces`). Whatever the delimiters are, be they empty or otherwise not to be used, a
call that yields a token takes something off the text to be read, and after an error there are
no items any more. So the calls come to an end:

* `Produces.exists_tokens`: what calls produce are tokens, no more than there are characters,
  and possibly one error behind them;
* `exists_produces`: some calls are all that there are;
* `scanning_always_progresses`: both of these, for the calls on a template.
-/

namespace Mustache.Template

namespace Scanner

/-- Calls of the scanner `s` produce some items, in order, and leave it as `last`. -/
inductive Produces : Scanner → List (Except TemplateError Token) → Scanner → Prop
  | stop {s : Scanner} : Produces s [] s
  | call {s s' last : Scanner} {item : Except TemplateError Token}
      {items : List (Except TemplateError Token)} :
      s.next = some (item, s') → Produces s' items last → Produces s (item :: items) last

section

variable {s s' last : Scanner} {token : Token} {e : TemplateError}
  {items : List (Except TemplateError Token)}

/-! ## A single call -/

theorem rest_suffix_of_passTag (h : s.passTag = (.ok token, s')) : s'.rest <:+ s.rest := by
  rw [passTag] at h
  split at h
  · cases h
  · next tag hr =>
    split at h
    · cases h
    · cases h
      have hdrop := List.drop_suffix s.delimiters.opening.length s.rest
      rw [(RawTag.read_eq hr).2] at hdrop
      exact (List.suffix_append _ _).trans hdrop

/-- A token is read from some characters, at least one. -/
theorem exists_passed_of_next (h : s.next = some (.ok token, s')) :
    ∃ passed, passed ≠ [] ∧ s.rest = passed ++ s'.rest := by
  have hsuffix : s'.rest <:+ s.rest := by
    rcases next_cases h with ⟨s₁, hrest, htag⟩ | ⟨text, -, htext, -⟩
    · exact hrest ▸ rest_suffix_of_passTag htag
    · exact ⟨text, by rw [← s.passText_rest, htext]⟩
  obtain ⟨passed, hp⟩ := hsuffix
  refine ⟨passed, ?_, hp.symm⟩
  rintro rfl
  have hlt := length_next_lt h
  rw [← hp, List.nil_append] at hlt
  exact Nat.lt_irrefl _ hlt

theorem of_passTag_eq_error (h : s.passTag = (.error e, s')) :
    s'.phase = .done ∧ s'.rest = s.rest := by
  rw [passTag] at h
  split at h
  · cases h
    exact ⟨rfl, rfl⟩
  · split at h <;> cases h
    exact ⟨rfl, rfl⟩

/-- An error stops the scanner where it is. -/
theorem of_next_eq_error (h : s.next = some (.error e, s')) :
    s'.next = none ∧ s'.rest = s.rest := by
  rcases next_cases h with ⟨s₁, hrest, htag⟩ | ⟨_, -, -, htext⟩
  · obtain ⟨hphase, hrest'⟩ := of_passTag_eq_error htag
    exact ⟨by rw [next, hphase], hrest'.trans hrest⟩
  · cases htext

/-- The scanner has stopped, if at all, at the end of the template. -/
def Sound (s : Scanner) : Prop := s.phase = .done → s.rest = []

theorem sound_passText (s : Scanner) : s.passText.2.Sound := by
  intro h
  simp only [passText] at h ⊢
  split at h
  · next hrest => exact List.isEmpty_iff.1 hrest
  · cases h

theorem sound_of_passTag (h : s.passTag = (.ok token, s')) : s'.Sound := by
  intro hphase
  rw [passTag] at h
  split at h
  · cases h
  · split at h <;> cases h
    cases hphase

theorem sound_of_next (h : s.next = some (.ok token, s')) : s'.Sound := by
  rcases next_cases h with ⟨_, -, htag⟩ | ⟨_, -, htext, -⟩
  · exact sound_of_passTag htag
  · have hsound := s.sound_passText
    rwa [htext] at hsound

/-- Without an error, the scanner goes on to the end of the template. -/
theorem Sound.rest_eq_nil (hs : s.Sound) (h : s.next = none) : s.rest = [] := by
  rw [next] at h
  split at h
  · next hphase => exact hs hphase
  · cases h
  · split at h
    · next s₁ htext =>
      -- There is neither text to be passed nor a tag behind it.
      split at h
      · cases h
      · next hphase =>
        have hrest := s.passText_rest
        have hempty : s.passText.2.phase ≠ .tag → s.passText.2.rest = [] := by
          simp [passText]
        rw [htext] at hrest hempty
        rw [← hrest, hempty hphase]
        rfl
    · cases h

/-! ## Calls one after the other -/

/-- What is still to be read is the end of what was to be read at first. -/
theorem Produces.rest_suffix (h : Produces s items last) : last.rest <:+ s.rest := by
  induction h with
  | stop => exact List.suffix_rfl
  | @call s s' last item items hnext _ ih =>
    cases item with
    | ok token =>
      obtain ⟨passed, -, hp⟩ := exists_passed_of_next hnext
      exact hp ▸ ih.trans (List.suffix_append _ _)
    | error e => exact (of_next_eq_error hnext).2 ▸ ih

/-- A scanner that has stopped produces nothing. -/
theorem Produces.eq_of_next_eq_none (h : Produces s items last) (hs : s.next = none) :
    items = [] ∧ last = s := by
  cases h with
  | stop => exact ⟨rfl, rfl⟩
  | call hnext _ => rw [hs] at hnext; cases hnext

/-- Calls produce tokens, no more than there are characters to be read, and possibly one error
    behind them. If there is none, they go on to the end of the template. -/
theorem Produces.exists_tokens (h : Produces s items last) (hs : s.Sound) :
    ∃ tokens : List Token, tokens.length + last.rest.length ≤ s.rest.length ∧
      (items = tokens.map .ok ∧ (last.next = none → last.rest = []) ∨
        ∃ e, items = tokens.map .ok ++ [.error e] ∧ last.next = none) := by
  induction h with
  | stop => exact ⟨[], by simp, .inl ⟨rfl, hs.rest_eq_nil⟩⟩
  | @call s s' last item items hnext hlater ih =>
    cases item with
    | ok token =>
      obtain ⟨tokens, hlength, hitems⟩ := ih (sound_of_next hnext)
      have hlt := length_next_lt hnext
      refine ⟨token :: tokens, by simp only [List.length_cons]; omega, ?_⟩
      rcases hitems with ⟨rfl, hrest⟩ | ⟨e, rfl, hstop⟩
      · exact .inl ⟨rfl, hrest⟩
      · exact .inr ⟨e, rfl, hstop⟩
    | error e =>
      obtain ⟨hstop, hrest⟩ := of_next_eq_error hnext
      obtain ⟨rfl, rfl⟩ := hlater.eq_of_next_eq_none hstop
      exact ⟨[], by simp [hrest], .inr ⟨e, rfl, hstop⟩⟩

/-- The calls come to an end. -/
theorem exists_produces (s : Scanner) : ∃ items last, Produces s items last ∧ last.next = none := by
  fun_induction tokens s with
  | case1 s hnext => exact ⟨[], s, .stop, hnext⟩
  | case2 s e s' hnext => exact ⟨_, s', .call hnext .stop, (of_next_eq_error hnext).1⟩
  | case3 s token s' hnext ih =>
    obtain ⟨items, last, hitems, hlast⟩ := ih
    exact ⟨_, last, .call hnext hitems, hlast⟩

/-- All that the calls produce are the tokens, or the first error. -/
theorem Produces.tokens_eq (h : Produces s items last) (hlast : last.next = none) :
    s.tokens = items.mapM id := by
  induction h with
  | stop =>
    rw [tokens]
    split
    · rfl
    · next hnext => rw [hlast] at hnext; cases hnext
    · next hnext => rw [hlast] at hnext; cases hnext
  | @call s s' last item items hnext _ ih =>
    rw [tokens, List.mapM_cons]
    split
    · next hnext' => rw [hnext] at hnext'; cases hnext'
    · next hnext' =>
      rw [hnext] at hnext'
      cases hnext'
      rfl
    · next hnext' =>
      rw [hnext] at hnext'
      cases hnext'
      rw [ih hlast]
      rfl

end

end Scanner

theorem length_le_utf8ByteSize (s : String) : s.toList.length ≤ s.utf8ByteSize := by
  rw [← String.ofList_toList (s := s), String.utf8ByteSize_ofList, String.toList_ofList]
  induction s.toList with
  | nil => exact Nat.zero_le _
  | cons c cs ih =>
    have hpos := c.utf8Size_pos
    rw [String.utf8Len_cons, List.length_cons]
    omega

/-- With any delimiters whatsoever, a call on a template that yields a token goes on by some
    characters of the template. What the calls yield are tokens, no more than the template has
    bytes, and then possibly one error, behind which there is nothing. Calls that end without an
    error have gone through all of the template. The calls do end, and all that they yield are
    the tokens to which the rule on lines is applied, or what is wrong with the template. -/
theorem scanning_always_progresses (d : Delimiters) (template : String) :
    let start := Scanner.start d template.toList
    (∀ items s, start.Produces items s →
      (∃ passed, template.toList = passed ++ s.rest) ∧
      (∀ token s', s.next = some (.ok token, s') →
        ∃ passed, passed ≠ [] ∧ s.rest = passed ++ s'.rest) ∧
      ∃ tokens : List Token, tokens.length ≤ template.utf8ByteSize ∧
        (items = tokens.map .ok ∧ (s.next = none → s.rest = []) ∨
          ∃ e, items = tokens.map .ok ++ [.error e] ∧ s.next = none)) ∧
    (∃ items last, start.Produces items last ∧ last.next = none) ∧
    ∀ items last, start.Produces items last → last.next = none →
      tokenize d template.toList = (items.mapM id).map (settle []) := by
  intro start
  have hsound : start.Sound := fun h => nomatch h
  refine ⟨fun items s h => ⟨?_, fun token s' => Scanner.exists_passed_of_next, ?_⟩,
    start.exists_produces, fun items last h hlast => ?_⟩
  · obtain ⟨passed, hp⟩ := h.rest_suffix
    exact ⟨passed, hp.symm⟩
  · obtain ⟨tokens, hlength, hitems⟩ := h.exists_tokens hsound
    have hbytes := length_le_utf8ByteSize template
    have hstart : start.rest = template.toList := rfl
    rw [hstart] at hlength
    exact ⟨tokens, by omega, hitems⟩
  · rw [tokenize, scan, h.tokens_eq hlast]

/-- Between empty delimiters a tag must start with a brace, or else it is empty. -/
example : tokenize ⟨[], []⟩ "\x7ba\x7dc".toList = .error (.malformed .emptyTag 1) := by cbv

end Mustache.Template
