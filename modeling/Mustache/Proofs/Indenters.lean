import Mustache.Proofs.Reading.Scan
import Mustache.Template.Standalone

/-!
# Indenters

An indenter is no tag of a template: the scanner yields none (`scan_ne_indenter`), whatever
the delimiters are. It is added in front of a partial that stands alone, so that in the
tokens of a template each indenter leads to a partial (`IndentersLead`, and `PartialsFollow`
whatever the indenters hold).
-/

namespace Mustache.Template

/-- Each indenter holds some blanks, and a partial comes right after it. -/
def IndentersLead : List Token → Prop
  | [] => True
  | token :: rest =>
    (token.kind = .indenter → token.value ≠ [] ∧ token.value.all isInlineBlank = true ∧
      ∃ next later, rest = next :: later ∧ next.kind = .expansion) ∧
    IndentersLead rest

/-- A partial comes right after each indenter. -/
def PartialsFollow : List Token → Prop
  | [] => True
  | token :: rest =>
    (token.kind = .indenter → ∃ next later, rest = next :: later ∧ next.kind = .expansion) ∧
    PartialsFollow rest

theorem IndentersLead.partialsFollow {tokens : List Token} (h : IndentersLead tokens) :
    PartialsFollow tokens := by
  induction tokens with
  | nil => trivial
  | cons token rest ih => exact ⟨fun hk => (h.1 hk).2.2, ih h.2⟩

theorem IndentersLead.append {s t : List Token} (hs : IndentersLead s) (ht : IndentersLead t) :
    IndentersLead (s ++ t) := by
  induction s with
  | nil => exact ht
  | cons token rest ih =>
    refine ⟨fun hk => ?_, ih hs.2⟩
    obtain ⟨hne, hb, next, later, rfl, hn⟩ := hs.1 hk
    exact ⟨hne, hb, next, later ++ t, rfl, hn⟩

theorem IndentersLead.singleton {token : Token} (h : token.kind ≠ .indenter) :
    IndentersLead [token] :=
  ⟨fun hk => absurd hk h, trivial⟩

theorem IndentersLead.exists_of_indenter {tokens : List Token} {i : Nat} {token : Token}
    (h : IndentersLead tokens) (hget : tokens[i]? = some token) (hk : token.kind = .indenter) :
    token.value ≠ [] ∧ token.value.all isInlineBlank = true ∧
      ∃ next, tokens[i + 1]? = some next ∧ next.kind = .expansion := by
  induction tokens generalizing i with
  | nil => cases hget
  | cons first rest ih =>
    cases i with
    | zero =>
      cases hget
      obtain ⟨hne, hb, next, later, rfl, hnext⟩ := h.1 hk
      exact ⟨hne, hb, next, rfl, hnext⟩
    | succ i => exact ih h.2 hget

theorem eq_of_isInlineBlank {c : Char} (h : isInlineBlank c = true) :
    c = ' ' ∨ c = '\t' ∨ c = '\r' := by
  simpa [isInlineBlank, or_assoc] using h

/-- The blanks in front of a tag are blanks. -/
theorem all_of_indentBefore {before : List Token} {indent : List Char}
    (h : indentBefore before = some indent) : indent.all isInlineBlank = true := by
  cases before with
  | nil => cases h; rfl
  | cons previous earlier =>
    simp only [indentBefore] at h
    split at h
    · next hc => cases h; exact hc.2.2
    · cases h

/-- What a tag takes in front of it is told by the tokens there, and what it takes behind it by
    those that follow. -/
theorem standing?_eq_some_iff {before after : List Token} {tag : Token} {s : Standing} :
    standing? before tag after = some s ↔ tag.kind.mayStandAlone = true ∧
      indentBefore before = some s.indent ∧ endingAfter after = some s.ending := by
  obtain ⟨indent, ending⟩ := s
  simp [standing?, Option.bind_eq_some_iff]

theorem all_of_standing? {before after : List Token} {tag : Token} {s : Standing}
    (h : standing? before tag after = some s) : s.indent.all isInlineBlank = true :=
  all_of_indentBefore (standing?_eq_some_iff.1 h).2.1

/-- What becomes of a token has its indenters in front of partials. -/
theorem indentersLead_settled {token : Token} (h : token.kind ≠ .indenter)
    (before after : List Token) : IndentersLead (settled before token after) := by
  rw [settled]
  split
  · next hk =>
    simp only
    split
    · trivial
    · exact .singleton h
  · next hk =>
    split
    · next c indent ending hs =>
      exact ⟨fun _ => ⟨List.cons_ne_nil _ _, all_of_standing? hs, token, [], rfl, hk⟩,
        .singleton h⟩
    · exact .singleton h
  · exact .singleton h

/-- With the rule on lines applied, each indenter leads to a partial. -/
theorem indentersLead_settle {tokens : List Token} (h : ∀ t ∈ tokens, t.kind ≠ .indenter)
    (before : List Token) : IndentersLead (settle before tokens) := by
  induction tokens generalizing before with
  | nil => trivial
  | cons token rest ih =>
    rw [List.forall_mem_cons] at h
    exact (indentersLead_settled h.1 before rest).append (ih h.2 _)

/-- A tag that the scanner passes is neither a text nor an indenter. -/
theorem isTag_of_passTag {s s' : Scanner} {token : Token} (h : s.passTag = (.ok token, s')) :
    token.kind ≠ .text ∧ token.kind ≠ .indenter := by
  rw [Scanner.passTag] at h
  split at h
  · cases h
  · next tag hr =>
    split at h
    · cases h
    · next kind value d hm =>
      cases h
      exact ((meaning_eq_ok_iff tag).1 hm).isTag

theorem next_ne_indenter {s s' : Scanner} {token : Token} (h : s.next = some (.ok token, s')) :
    token.kind ≠ .indenter := by
  rcases Scanner.next_cases h with ⟨_, -, htag⟩ | ⟨_, -, -, htext⟩
  · exact (isTag_of_passTag htag).2
  · cases htext
    exact Kind.noConfusion

/-- The scanner yields no indenter. -/
theorem scan_ne_indenter {s : Scanner} {tokens : List Token} (h : s.tokens = .ok tokens) :
    ∀ t ∈ tokens, t.kind ≠ .indenter := by
  fun_induction Scanner.tokens s generalizing tokens with
  | case1 s hn =>
    cases h
    exact List.forall_mem_nil _
  | case2 s e s' hn => cases h
  | case3 s token s' hn ih =>
    obtain ⟨rest, hr, rfl⟩ := map_eq_ok_iff.1 h
    exact List.forall_mem_cons.2 ⟨next_ne_indenter hn, ih hr⟩

/-- In the tokens of a template, each indenter leads to a partial. -/
theorem indentersLead_of_tokenize {d : Delimiters} {template : List Char} {tokens : List Token}
    (h : tokenize d template = .ok tokens) : IndentersLead tokens := by
  obtain ⟨raw, hraw, rfl⟩ := map_eq_ok_iff.1 h
  exact indentersLead_settle (scan_ne_indenter hraw) []

end Mustache.Template
