import Mustache.Template.Tag

/-!
# Scanning a template

A *scanner* goes through a template from its start to its end, and yields its texts
and tags one at a time (`Scanner.next`). It keeps the text still to be read, the line
reached and the delimiters in force, which a tag may change. It stops at the end of
the template, or at the first tag that is not written properly.

* `Scanner.length_next_lt`: every token takes something off the text to be read, even
  with delimiters that are empty. Hence the scanner stops (`Scanner.tokens`).
-/

namespace Mustache.Template

/-- What a scanner looks at next. -/
inductive Scanner.Phase where
  /-- Text, up to the next opening delimiter. -/
  | text
  /-- A tag, from its opening delimiter on. -/
  | tag
  /-- Nothing: it has stopped. -/
  | done
deriving DecidableEq, Repr

/-- A template being read. -/
structure Scanner where
  /-- The text still to be read. -/
  rest : List Char
  /-- The line reached. -/
  line : Nat
  /-- The delimiters in force. -/
  delimiters : Delimiters
  phase : Scanner.Phase
deriving DecidableEq, Repr

namespace Scanner

/-- The scanner at the start of a template. -/
def start (d : Delimiters) (template : List Char) : Scanner :=
  ⟨template, 1, d, .text⟩

/-- The scanner after the text up to the next opening delimiter, and that text. -/
def passText (s : Scanner) : List Char × Scanner :=
  let (text, rest) := Text.splitBefore s.delimiters.opening s.rest
  (text, { s with
    rest
    line := s.line + Text.lineFeeds text
    phase := if rest.isEmpty then .done else .tag })

/-- The tag that the scanner stands at, and the scanner after it. A tag that is not
    written properly stops the scanner. -/
def passTag (s : Scanner) : Except TemplateError Token × Scanner :=
  match RawTag.read s.delimiters.closing (s.rest.drop s.delimiters.opening.length) with
  | .error cause => (.error (.malformed cause s.line), { s with phase := .done })
  | .ok tag =>
    match tag.meaning s.delimiters with
    | .error cause => (.error (.malformed cause s.line), { s with phase := .done })
    | .ok (kind, value, delimiters) =>
      let source := s.delimiters.opening ++ tag.source s.delimiters.closing
      (.ok ⟨kind, value, s.line⟩,
        { rest := tag.rest, line := s.line + Text.lineFeeds source, delimiters, phase := .text })

/-- The next token, or what is wrong with the next tag, and the scanner after it.
    There is none when the scanner has stopped. -/
def next (s : Scanner) : Option (Except TemplateError Token × Scanner) :=
  match s.phase with
  | .done => none
  | .tag => some s.passTag
  | .text =>
    match s.passText with
    | ([], s') => if s'.phase = .tag then some s'.passTag else none
    | (text, s') => some (.ok ⟨.text, text, s.line⟩, s')

theorem length_passTag_lt {s s' : Scanner} {t : Token} (h : s.passTag = (.ok t, s')) :
    s'.rest.length < s.rest.length := by
  unfold passTag at h
  split at h
  · simp at h
  · next tag hr =>
    split at h
    · simp at h
    · next hm =>
      have hlt := RawTag.length_rest_lt hr hm
      injection h with _ h
      subst h
      have := List.length_drop (i := s.delimiters.opening.length) (l := s.rest)
      simp only
      omega

theorem passText_rest (s : Scanner) : s.passText.1 ++ s.passText.2.rest = s.rest :=
  Text.splitBefore_append _ _

/-- A call passes the tag that comes next, or else some text in front of it. -/
theorem next_cases {s s' : Scanner} {item : Except TemplateError Token}
    (h : s.next = some (item, s')) :
    (∃ s₁ : Scanner, s₁.rest = s.rest ∧ s₁.passTag = (item, s')) ∨
      ∃ text, text ≠ [] ∧ s.passText = (text, s') ∧ item = .ok ⟨.text, text, s.line⟩ := by
  unfold next at h
  split at h
  · exact absurd h (by simp)
  · exact .inl ⟨s, rfl, Option.some.inj h⟩
  · have hrest := s.passText_rest
    split at h
    · next s₁ hs =>
      rw [hs] at hrest
      split at h
      · exact .inl ⟨s₁, hrest, Option.some.inj h⟩
      · exact absurd h (by simp)
    · next text s₁ hne hs =>
      injection h with h
      injection h with hitem h
      subst h
      exact .inr ⟨text, hne, hs, hitem.symm⟩

/-- Every token takes something off the text to be read. -/
theorem length_next_lt {s s' : Scanner} {t : Token} (h : s.next = some (.ok t, s')) :
    s'.rest.length < s.rest.length := by
  rcases next_cases h with ⟨s₁, hrest, htag⟩ | ⟨text, hne, htext, -⟩
  · exact hrest ▸ length_passTag_lt htag
  · have hlen := congrArg List.length s.passText_rest
    have hpos := List.length_pos_iff.2 hne
    rw [htext, List.length_append] at hlen
    simp only at hlen
    omega

/-- The tokens still to come, or what is wrong with the first improper tag. -/
def tokens (s : Scanner) : Except TemplateError (List Token) :=
  match _ : s.next with
  | none => .ok []
  | some (.error e, _) => .error e
  | some (.ok t, s') => s'.tokens.map (t :: ·)
termination_by s.rest.length
decreasing_by exact length_next_lt ‹_›

end Scanner

/-- The texts and tags of a template, before any rule on lines is applied. -/
def scan (d : Delimiters) (template : List Char) : Except TemplateError (List Token) :=
  (Scanner.start d template).tokens

end Mustache.Template
