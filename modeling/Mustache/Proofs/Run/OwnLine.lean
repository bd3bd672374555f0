import Mustache.Proofs.Reading.Calls
import Mustache.Proofs.Run.Indentation

/-!
# Partials are indented by their own lines

What indents a partial is on the same line of the template. An indenter holds all that is in front
of its partial on this line (`exists_line_of_indenter`), and the machine, however it has come to a
partial, has noted down the indenter right in front of it and no other (`Indented`). Loops that go
back, sections that are passed over and partials that came before leave nothing behind.

* `partials_take_indentation_of_own_line`: both of these, for all templates and all runs.
-/

namespace Mustache

namespace Template

/-- A partial stands at an index, right behind an indenter with the given blanks. -/
inductive Indented (tokens : List Token) (blanks : List Char) : Nat → Prop
  | intro {i line line' : Nat} {name : List Char} :
      tokens[i]? = some ⟨.indenter, blanks, line⟩ →
      tokens[i + 1]? = some ⟨.expansion, name, line'⟩ → Indented tokens blanks (i + 1)

/-! ## The line of an indenter -/

/-- Only for a partial that stands alone is there an indenter. -/
theorem exists_standing?_of_settled {before after : List Token} {token indenter : Token} {i : Nat}
    (ht : token.kind ≠ .indenter) (hget : (settled before token after)[i]? = some indenter)
    (hk : indenter.kind = .indenter) :
    ∃ s, token.kind = .expansion ∧ standing? before token after = some s ∧
      s.indent = indenter.value ∧ (settled before token after)[i + 1]? = some token := by
  have hsingle : ∀ {t : Token} {i : Nat}, t.kind ≠ .indenter → [t][i]? ≠ some indenter :=
    fun ht he => ht (List.mem_singleton.1 (List.mem_of_getElem? he) ▸ hk)
  rw [settled] at hget ⊢
  cases hx : token.kind with
  | expansion =>
    simp only [hx] at hget ⊢
    split at hget
    · next c indent ending hs =>
      cases i with
      | zero =>
        cases hget
        exact ⟨⟨c :: indent, ending⟩, trivial, hs, rfl, rfl⟩
      | succ i => exact absurd hget (hsingle ht)
    · exact absurd hget (hsingle ht)
  | text =>
    simp only [hx] at hget
    split at hget
    · cases hget
    · exact absurd hget (hsingle (by simp [Token.cut, hx]))
  | comment | escaped | unescaped | opener | inverse | ender | indenter =>
    simp only [hx] at hget
    exact absurd hget (hsingle ht)

theorem exists_standing?_of_settle {before tokens : List Token} {indenter : Token} {i : Nat}
    (ht : ∀ t ∈ tokens, t.kind ≠ .indenter) (hget : (settle before tokens)[i]? = some indenter)
    (hk : indenter.kind = .indenter) :
    ∃ early next later s, tokens = early ++ next :: later ∧ next.kind = .expansion ∧
      standing? (early.reverse ++ before) next later = some s ∧ s.indent = indenter.value ∧
      (settle before tokens)[i + 1]? = some next := by
  induction tokens generalizing before i with
  | nil => cases hget
  | cons token after ih =>
    rw [List.forall_mem_cons] at ht
    rw [settle] at hget ⊢
    by_cases hi : i < (settled before token after).length
    · rw [List.getElem?_append_left hi] at hget
      obtain ⟨s, hx, hs, hindent, hnext⟩ := exists_standing?_of_settled ht.1 hget hk
      have hi' := (List.getElem?_eq_some_iff.1 hnext).1
      exact ⟨[], token, after, s, rfl, hx, hs, hindent,
        (List.getElem?_append_left hi').trans hnext⟩
    · rw [List.getElem?_append_right (Nat.not_lt.1 hi)] at hget
      obtain ⟨early, next, later, s, rfl, hx, hs, hindent, hnext⟩ := ih ht.2 hget
      refine ⟨token :: early, next, later, s, rfl, hx, ?_, hindent, ?_⟩
      · rw [List.reverse_cons, List.append_assoc]
        exact hs
      · rw [List.getElem?_append_right (by omega)]
        have hshift : i + 1 - (settled before token (early ++ next :: later)).length =
            i - (settled before token (early ++ next :: later)).length + 1 := by omega
        rw [hshift, hnext]

/-- An indenter holds all that is in front of its partial on the same line of the template. -/
theorem exists_line_of_indenter {d : Delimiters} {template : List Char} {tokens : List Token}
    (h : tokenize d template = .ok tokens) {i : Nat} {indenter : Token}
    (hget : tokens[i]? = some indenter) (hk : indenter.kind = .indenter) :
    ∃ next before, tokens[i + 1]? = some next ∧ next.kind = .expansion ∧
      FoundBehind d template before next ∧ Text.lastLine before = indenter.value := by
  obtain ⟨raw, hraw, rfl⟩ := map_eq_ok_iff.1 h
  obtain ⟨early, next, later, s, rfl, hx, hs, hindent, hnext⟩ :=
    exists_standing?_of_settle (scan_ne_indenter hraw) hget hk
  rw [List.append_nil] at hs
  obtain ⟨before, hfound, hline⟩ :=
    exists_line_of_standing? (by rw [List.reverse_reverse]; exact hraw) hs
  exact ⟨next, before, hnext, hx, hfound, hline.trans hindent⟩

end Template

namespace Render

open Template

/-- The blanks noted for an index are those of an indenter, and a partial stands there. -/
theorem indentationAt_eq_some_iff {tokens : List Token} (hi : IndentersLead tokens) {k : Nat}
    {blanks : List Char} : indentationAt tokens k = some blanks ↔ Indented tokens blanks k := by
  constructor
  · intro h
    cases k with
    | zero => cases h
    | succ i =>
      obtain ⟨indenter, hf, rfl⟩ := Option.map_eq_some_iff.1 h
      obtain ⟨hget, hk⟩ := Option.filter_eq_some_iff.1 hf
      obtain ⟨-, -, next, hnext, hx⟩ := hi.exists_of_indenter hget (of_decide_eq_true hk)
      obtain ⟨kind, value, line⟩ := indenter
      obtain ⟨kind', value', line'⟩ := next
      obtain rfl : kind = .indenter := of_decide_eq_true hk
      obtain rfl : kind' = .expansion := hx
      exact .intro hget hnext
  · rintro ⟨hget, -⟩
    exact indentationAt_succ_eq_some hget rfl

/-- In the tokens of a template, whatever the delimiters are, each indenter is a run of spaces, tabs
    and carriage returns, at least one, right in front of a partial, and it is all that is in front
    of this partial on the same line of the template. If the sections are properly nested, in every
    state of a run the indentation that is noted is the one of an indenter iff a partial comes next
    and this indenter is right in front of it. So a partial is expanded with the indentation of its
    own line and with nothing else, however the run has come to it. -/
theorem partials_take_indentation_of_own_line {d : Delimiters} {template : List Char}
    {tokens : List Token} (h : tokenize d template = .ok tokens) :
    (∀ i indenter, tokens[i]? = some indenter → indenter.kind = .indenter →
      indenter.value ≠ [] ∧ (∀ c ∈ indenter.value, c = ' ' ∨ c = '\t' ∨ c = '\r') ∧
      ∃ next before, tokens[i + 1]? = some next ∧ next.kind = .expansion ∧
        FoundBehind d template before next ∧ Text.lastLine before = indenter.value) ∧
    (Sections.check tokens = .ok () → ∀ settings expansion scopes s,
      Reaches settings expansion tokens.toArray (.start scopes) s →
      (∀ blanks, s.indentation = some blanks ↔ Indented tokens blanks s.cursor) ∧
      ∀ token, tokens[s.cursor]? = some token → token.kind = .expansion →
        step settings expansion tokens.toArray s token =
          (expansion token.value (partialBody (indentationAt tokens s.cursor)
            (Context.resolveText s.scopes token.value).toList) s.scopes).map fun text =>
              { s.write text with indentation := none }) := by
  have hlead := indentersLead_of_tokenize h
  refine ⟨fun i indenter hget hk => ?_, fun hc settings expansion scopes s hs => ?_⟩
  · obtain ⟨hne, hblank, -⟩ := hlead.exists_of_indenter hget hk
    exact ⟨hne, fun c hcm => eq_of_isInlineBlank (List.all_eq_true.1 hblank c hcm),
      exists_line_of_indenter h hget hk⟩
  · have hnoted := hs.indentation_eq hc hlead
    refine ⟨fun blanks => ?_, fun token _ hk => ?_⟩
    · rw [hnoted, indentationAt_eq_some_iff hlead]
    · rw [step, hk, ← hnoted]
      rfl

/-- When a section starts again, the partial that stands alone in it is indented again, and the one
    behind it, on the line below, is not. -/
theorem partials_take_indentation_of_own_line_again :
    let d : Delimiters := ⟨"<%".toList, "%>".toList⟩
    let template := "<%#a%>\n \t<%>p%>\n<%>q%><%/a%>".toList
    let tokens : List Token := [⟨.opener, "a".toList, 1⟩, ⟨.indenter, " \t".toList, 2⟩,
      ⟨.expansion, "p".toList, 2⟩, ⟨.expansion, "q".toList, 3⟩, ⟨.ender, "a".toList, 3⟩]
    let expansion : Expansion := fun _ _ _ => .ok "."
    let data : Context := .object [("a", .array [.string "x", .string "y"])]
    let items : Array Context := #[.string "x", .string "y"]
    let second (cursor : Nat) (indentation : Option (List Char)) (output : String) : State :=
      ⟨cursor, [.string "y", data], [⟨"a".toList, .loop items 1 1⟩], indentation, output⟩
    tokenize d template = .ok tokens ∧ Sections.check tokens = .ok () ∧
      (∃ before, FoundBehind d template before ⟨.expansion, "p".toList, 2⟩ ∧
        Text.lastLine before = " \t".toList) ∧
      Reaches {} expansion tokens.toArray (.start [data])
        (second 2 (some " \t".toList) " \t.. \t") ∧
      Indented tokens " \t".toList 2 ∧
      Reaches {} expansion tokens.toArray (.start [data]) (second 3 none " \t.. \t.") ∧
      ∀ blanks, ¬ Indented tokens blanks 3 := by
  intro d template tokens expansion data items second
  have h : tokenize ⟨"<%".toList, "%>".toList⟩ "<%#a%>\n \t<%>p%>\n<%>q%><%/a%>".toList =
      .ok [⟨.opener, "a".toList, 1⟩, ⟨.indenter, " \t".toList, 2⟩, ⟨.expansion, "p".toList, 2⟩,
        ⟨.expansion, "q".toList, 3⟩, ⟨.ender, "a".toList, 3⟩] := by cbv
  have hc : Sections.check tokens = .ok () := rfl
  let first (cursor : Nat) (indentation : Option (List Char)) (output : String) : State :=
    ⟨cursor, [.string "x", data], [⟨"a".toList, .loop items 1 2⟩], indentation, output⟩
  have hopen : step {} expansion tokens.toArray (.start [data]) ⟨.opener, "a".toList, 1⟩ =
      .ok (first 1 none "") := rfl
  have hindent : step {} expansion tokens.toArray (first 1 none "")
      ⟨.indenter, " \t".toList, 2⟩ = .ok (first 2 (some " \t".toList) " \t") := by cbv
  have hp : step {} expansion tokens.toArray (first 2 (some " \t".toList) " \t")
      ⟨.expansion, "p".toList, 2⟩ = .ok (first 3 none " \t.") := by cbv
  have hq : step {} expansion tokens.toArray (first 3 none " \t.") ⟨.expansion, "q".toList, 3⟩ =
      .ok (first 4 none " \t..") := by cbv
  have hclose : step {} expansion tokens.toArray (first 4 none " \t..") ⟨.ender, "a".toList, 3⟩ =
      .ok (second 1 none " \t..") := by cbv
  have hindent' : step {} expansion tokens.toArray (second 1 none " \t..")
      ⟨.indenter, " \t".toList, 2⟩ = .ok (second 2 (some " \t".toList) " \t.. \t") := by cbv
  have hp' : step {} expansion tokens.toArray (second 2 (some " \t".toList) " \t.. \t")
      ⟨.expansion, "p".toList, 2⟩ = .ok (second 3 none " \t.. \t.") := by cbv
  have hfirst : Reaches {} expansion tokens.toArray (.start [data]) (first 4 none " \t..") :=
    .step (.step (.step (.step .refl rfl hopen) rfl hindent) rfl hp) rfl hq
  have hagain : Reaches {} expansion tokens.toArray (.start [data])
      (second 2 (some " \t".toList) " \t.. \t") :=
    .step (.step hfirst rfl hclose) rfl hindent'
  have hbehind : Reaches {} expansion tokens.toArray (.start [data])
      (second 3 none " \t.. \t.") := .step hagain rfl hp'
  obtain ⟨hline, hruns⟩ := partials_take_indentation_of_own_line h
  obtain ⟨-, -, next, before, hnext, -, hfound, hlast⟩ := hline 1 _ rfl rfl
  obtain rfl := Option.some.inj hnext
  exact ⟨h, hc, ⟨before, hfound, hlast⟩, hagain, ((hruns hc _ _ _ _ hagain).1 _).1 rfl, hbehind,
    fun blanks hi => Option.some_ne_none blanks (((hruns hc _ _ _ _ hbehind).1 blanks).2 hi).symm⟩

end Render

end Mustache
