import Mustache.Proofs.Reading.Starts
import Mustache.Proofs.Run.Failure
import Mustache.Proofs.Sections.Balance

/-!
# Line numbers

A token is on the line of the place where it starts, and an error is reported for the line where
the tag starts that it is about. For a tag that is not written properly this is the first such
tag (`FailsAt`). For sections that are not properly nested it is a closing tag that does not
name the section to be closed, or the opening tag of a section that is still open at the end
(`Offends`).

* `check_eq_error_iff`: the errors of the check are those for the tags that offend it;
* `line_numbers_are_exact`: the lines of the tokens of a template, and of what is wrong with it.
-/

namespace Mustache

/-- The line that an error is reported for. There is none for partials that are nested too
    deeply. -/
def TemplateError.line? : TemplateError → Option Nat
  | .malformed _ line => some line
  | .unclosedSection _ line => some line
  | .unexpectedEnder _ line => some line
  | .mismatchedEnder _ _ line => some line
  | .partialTooDeep _ _ => none

namespace Template

/-- The error is about the tag at an index: the first closing tag that does not name the innermost
    section open in front of it, or, if there is none, the opening tag of the innermost section
    open at the end. -/
inductive Offends (tokens : List Token) : Nat → TemplateError → Prop
  | ender {ender : Token} {before after opened : List Token} :
      tokens = before ++ ender :: after → LeavesOpen opened before → ender.kind.role = .closes →
      (∀ innermost ∈ opened.head?, innermost.value ≠ ender.value) →
      Offends tokens before.length (nestingError ender opened)
  | opener {opener : Token} {before inner opened : List Token} :
      tokens = before ++ opener :: inner → LeavesOpen opened before →
      opener.kind.role = .opens → Balanced inner →
      Offends tokens before.length (.unclosedSection opener.value opener.line)

variable {tokens : List Token} {e : TemplateError}

/-- The errors of the check are those for the tags that offend it. -/
theorem check_eq_error_iff : Sections.check tokens = .error e ↔ ∃ i, Offends tokens i e := by
  constructor
  · intro h
    rcases Sections.leavesOpen_or_exists tokens with ⟨opened, hs⟩ | ⟨before, ender, after, opened,
      he, hbefore, hr, hv⟩
    · cases hs with
      | balanced hb =>
        rw [Sections.check_of_balanced hb] at h
        cases h
      | opens houter hr hinner =>
        rw [Sections.check_of_leavesOpen_cons (houter.opens hr hinner)] at h
        cases h
        exact ⟨_, .opener rfl houter hr hinner⟩
    · rw [he, Sections.check_of_leavesOpen_closes hbefore hr hv] at h
      cases h
      exact ⟨_, .ender he hbefore hr hv⟩
  · rintro ⟨i, h⟩
    cases h with
    | ender he hbefore hr hv => rw [he, Sections.check_of_leavesOpen_closes hbefore hr hv]
    | opener he hbefore hr hinner =>
      rw [he, Sections.check_of_leavesOpen_cons (hbefore.opens hr hinner)]

/-- An error about a tag is reported for the line of the tag. -/
theorem Offends.exists_token {i : Nat} (h : Offends tokens i e) :
    ∃ token, tokens[i]? = some token ∧ e.line? = some token.line := by
  cases h with
  | @ender ender _ _ opened he _ _ _ =>
    refine ⟨ender, by simp [he], ?_⟩
    cases opened <;> rfl
  | @opener opener _ _ _ he _ _ _ => exact ⟨opener, by simp [he], rfl⟩

end Template

namespace Render

open Template

/-- The tokens of a template start at places in the source, in order, and each of them is on the
    line of the place where it starts. What is wrong with the nesting of its sections is reported
    for the line where the tag starts that the error is about, and what is wrong with a tag for
    the line where that tag starts. No other error is there for the template, unless rendering
    comes to a partial that fails. -/
theorem line_numbers_are_exact {d : Delimiters} (hd : d.Usable) (template : String) :
    (∀ tokens, tokenize d template.toList = .ok tokens →
      ∃ r starts, Reads d r ∧ r.source = template.toList ∧
        r.Marks 0 template.toList.length tokens starts ∧
        (∀ p ∈ r.places, p.before.length ∈ starts) ∧
        ∀ e, Sections.check tokens = .error e →
          ∃ i start, Offends tokens i e ∧ starts[i]? = some start ∧
            e.line? = some (lineAt template.toList start)) ∧
    (∀ e, tokenize d template.toList = .error e →
      ∃ before after cause, template.toList = before ++ after ∧ FailsAt d before after cause ∧
        e = .malformed cause (lineAt template.toList before.length)) ∧
    ∀ (settings : Settings) (data : Context) (e : TemplateError), settings.delimiters = d →
      render settings template data = .error e →
        tokenize d template.toList >>= Sections.check = .error e ∨
        ∃ tokens s token, tokenize d template.toList = .ok tokens ∧
          Reaches settings (expandAt settings 0) tokens.toArray (.start [data]) s ∧
          tokens[s.cursor]? = some token ∧ token.kind = .expansion ∧
          expandAt settings 0 token.value (partialBody s.indentation
            (Context.resolveText s.scopes token.value).toList) s.scopes = .error e := by
  refine ⟨fun tokens h => ?_, fun e h => ?_, fun settings data e hdelim h => ?_⟩
  · obtain ⟨r, starts, hr, hs, hmarks, hplaces⟩ := exists_marks hd h
    refine ⟨r, starts, hr, hs, hmarks, hplaces, fun e he => ?_⟩
    obtain ⟨i, hoffends⟩ := check_eq_error_iff.1 he
    obtain ⟨token, hget, hline⟩ := hoffends.exists_token
    obtain ⟨start, hstart, -, htoken⟩ := hmarks.exists_start hget
    exact ⟨i, start, hoffends, hstart, by rw [hline, htoken, hs]⟩
  · obtain ⟨before, after, cause, he, hfails, rfl⟩ :=
      (scan_eq_error_iff hd).1 (tokenize_eq_error_iff.1 h)
    exact ⟨before, after, cause, he, hfails, by rw [he, lineAt_append]⟩
  · subst hdelim
    rw [render, renderAt_eq_renderWith] at h
    cases ht : tokenize settings.delimiters template.toList with
    | error e' =>
      rw [renderWith_of_tokenize_eq_error ht] at h
      cases h
      exact .inl rfl
    | ok tokens =>
      rw [renderWith_of_tokenize ht] at h
      cases hc : Sections.check tokens with
      | error e' =>
        rw [hc] at h
        cases h
        exact .inl hc
      | ok _ =>
        rw [hc] at h
        obtain ⟨s, token, hreach, hget, hk, hfails⟩ := (run_eq_error_iff_expansion hc).1 h
        exact .inr ⟨tokens, s, token, rfl, hreach, hget, hk, hfails⟩

/-- Tags over several lines, and lines that tags take, are counted. A section is reported for the
    line where its opening tag starts, not for the one where it ends. -/
theorem line_numbers_are_exact_tags_over_lines :
    let d : Delimiters := ⟨"<%".toList, "%>".toList⟩
    let template := "a\n <%! \n%>\n\t<%>p%>\n\n<%#\ns%><%x%>"
    let tokens : List Token := [⟨.text, "a\n".toList, 1⟩, ⟨.comment, [], 2⟩,
      ⟨.indenter, "\t".toList, 4⟩, ⟨.expansion, "p".toList, 4⟩, ⟨.text, "\n".toList, 5⟩,
      ⟨.opener, "s".toList, 6⟩, ⟨.escaped, "x".toList, 7⟩]
    d.Usable ∧ tokenize d template.toList = .ok tokens ∧
    ∃ r starts, Reads d r ∧ r.source = template.toList ∧
      r.Marks 0 template.toList.length tokens starts ∧
      (∀ p ∈ r.places, p.before.length ∈ starts) ∧
      ∃ i start, Offends tokens i (.unclosedSection ['s'] 6) ∧ starts[i]? = some start ∧
        lineAt template.toList start = 6 := by
  have hd : Delimiters.Usable ⟨"<%".toList, "%>".toList⟩ := by decide
  have ht : tokenize ⟨"<%".toList, "%>".toList⟩
      "a\n <%! \n%>\n\t<%>p%>\n\n<%#\ns%><%x%>".toList =
        .ok [⟨.text, "a\n".toList, 1⟩, ⟨.comment, [], 2⟩,
          ⟨.indenter, "\t".toList, 4⟩, ⟨.expansion, "p".toList, 4⟩, ⟨.text, "\n".toList, 5⟩,
          ⟨.opener, "s".toList, 6⟩, ⟨.escaped, "x".toList, 7⟩] := by cbv
  obtain ⟨r, starts, hr, hs, hmarks, hplaces, herrors⟩ :=
    (line_numbers_are_exact hd "a\n <%! \n%>\n\t<%>p%>\n\n<%#\ns%><%x%>").1 _ ht
  obtain ⟨i, start, hoffends, hstart, hline⟩ := herrors (.unclosedSection ['s'] 6) (by cbv)
  exact ⟨hd, ht, r, starts, hr, hs, hmarks, hplaces, i, start, hoffends, hstart,
    (Option.some.inj hline).symm⟩

end Render

end Mustache
