import Mustache.Proofs.Inlining

/-!
# Partials on indented lines

A partial that stands alone on an indented line is rendered in two steps. The blanks in front of
it are written at once, and its body is rendered with these blanks in front of each of its lines
but the first. The output is that of the body with the blanks in front of each of its lines, as
these are written in front of the first line anyway (`renderWith_blanks`), unless the first line
holds a tag that stands alone there: this would take the blanks, which are written already.

* `standalone_partial_is_indented`: the output of an indented line with a partial.
-/

namespace Mustache

namespace Text

/-- The lines of a text, each with the line feed that ends it. What follows the last line feed is
    a line only if it is not empty. -/
def lines : List Char → List (List Char)
  | [] => []
  | c :: rest =>
    if c = '\n' then [c] :: lines rest
    else
      match lines rest with
      | [] => [[c]]
      | line :: others => (c :: line) :: others

/-- The lines make up the text. -/
theorem flatten_lines (s : List Char) : (lines s).flatten = s := by
  induction s with
  | nil => rfl
  | cons c rest ih =>
    rw [lines]
    split
    · rw [List.flatten_cons, ih, List.singleton_append]
    · split
      · next h => rw [h] at ih; rw [← ih]; rfl
      · next h =>
        rw [h] at ih
        rw [← ih, List.flatten_cons, List.flatten_cons, List.cons_append]

end Text

namespace Render

open Template

/-- With an indentation in front of each of its lines, a text is one that is indented, with the
    indentation in front. -/
theorem flatMap_lines (indent : List Char) {s : List Char} (h : s ≠ []) :
    (Text.lines s).flatMap (indent ++ ·) = indent ++ indentLines indent s := by
  induction s using indentLines.induct with
  | case1 => exact absurd rfl h
  | case2 c => simp [Text.lines, indentLines]
  | case3 d rest ih =>
    rw [Text.lines, if_pos rfl, List.flatMap_cons, ih (List.cons_ne_nil _ _), indentLines,
      if_pos rfl, List.append_assoc, List.singleton_append, List.cons_append]
  | case4 c d rest hc ih =>
    -- The character is put in front of the first line of the rest.
    cases hl : Text.lines (d :: rest) with
    | nil =>
      have hflatten := Text.flatten_lines (d :: rest)
      rw [hl] at hflatten
      cases hflatten
    | cons line others =>
      have hrest := ih (List.cons_ne_nil _ _)
      rw [hl, List.flatMap_cons, List.append_assoc, List.append_cancel_left_eq] at hrest
      rw [Text.lines, if_neg hc, hl, indentLines, if_neg hc, ← hrest, List.flatMap_cons,
        List.append_assoc, List.cons_append]

variable {settings : Settings} {expansion : Expansion} {blanks : List Char}

theorem evaluateAll_text_cons (text : List Char) (pieces : List Piece) (scopes : List Context) :
    evaluateAll settings expansion (.text text :: pieces) scopes =
      (evaluateAll settings expansion pieces scopes).map (String.ofList text ++ ·) := by
  rw [evaluateAll, evaluate]
  cases evaluateAll settings expansion pieces scopes <;> rfl

/-- A text in front of tokens is written in front of their output. -/
theorem run_joined_text {tokens : List Token} (hi : IndentersLead tokens)
    (hc : Sections.check tokens = .ok ()) (text : List Char) (line : Nat) (scopes : List Context) :
    run settings expansion (joined [⟨.text, text, line⟩] tokens).toArray (.start scopes) =
      (run settings expansion tokens.toArray (.start scopes)).map (String.ofList text ++ ·) := by
  have hn := nests_nest hi hc
  have hcons : Nests (⟨.text, text, line⟩ :: tokens) (.text text :: nest tokens) := .leaf rfl hn
  have hjoined := @run_append_joined settings expansion [] [⟨.text, text, line⟩] tokens
    (IndentersLead.singleton (by simp) |>.append hi)
    (Sections.check_of_balanced hcons.balanced) scopes
  rw [List.nil_append, List.nil_append, List.singleton_append, run_nests hcons,
    evaluateAll_text_cons] at hjoined
  rw [hjoined, run_nests hn]

/-- Blanks in front of a template are written in front of its output, unless the first tag takes
    them. -/
theorem renderWith_blanks (hd : settings.delimiters.Usable) (hb : blanks.all isInlineBlank = true)
    (hne : blanks ≠ []) {t : List Char}
    (h : ∀ r, Reads settings.delimiters r → r.source = t → ¬ r.StandsAtStart)
    (scopes : List Context) :
    renderWith settings expansion (blanks ++ t) scopes =
      (renderWith settings expansion t scopes).map (String.ofList blanks ++ ·) := by
  have htokens := tokenize_blanks hb hne hd h
  cases ht : tokenize settings.delimiters t with
  | error e =>
    rw [ht] at htokens
    rw [renderWith_of_tokenize_eq_error ht, renderWith_of_tokenize_eq_error htokens]
    rfl
  | ok tokens =>
    rw [ht] at htokens
    have hcheck := Sections.check_append_joined [] [⟨.text, blanks, 1⟩] tokens
    have hstays : Sections.check (⟨.text, blanks, 1⟩ :: tokens) = Sections.check tokens :=
      Sections.checkFrom_stays rfl
    rw [List.nil_append, List.nil_append, List.singleton_append, hstays] at hcheck
    rw [renderWith_of_tokenize ht, renderWith_of_tokenize htokens, hcheck]
    cases hc : Sections.check tokens with
    | error e => rfl
    | ok => exact run_joined_text (indentersLead_of_tokenize ht) hc blanks 1 scopes

/-- A partial on an indented line has the blanks written in front of what its body is rendered to,
    with all lines of the body but the first one indented. -/
theorem renderAt_indented_line (hd : settings.delimiters.Usable)
    (hb : blanks.all isInlineBlank = true) (hne : blanks ≠ []) {written name ending : List Char}
    (h : scan settings.delimiters written = .ok [⟨.expansion, name, 1⟩])
    (hending : ending = [] ∨ ending = ['\n']) {depth : Nat}
    (hdepth : depth < settings.maxPartialDepth) (scopes : List Context) :
    renderAt settings depth (blanks ++ written ++ ending) scopes =
      (renderAt settings (depth + 1) (indentLines blanks
        (dropEndSpaces (Context.resolveText scopes name).toList)) scopes).map
          (String.ofList blanks ++ ·) := by
  have hmore : ([] : List Char).all isInlineBlank = true := rfl
  have htokens := (tokenize_line_of_scan h hd rfl hb hmore hending).1
  rw [if_pos ⟨rfl, hne⟩, List.singleton_append, List.nil_append] at htokens
  have hempty : blanks.isEmpty = false := by simpa using hne
  have hnest : nest [⟨.indenter, blanks, 1⟩, ⟨.expansion, name, 1⟩] =
      [.expansion blanks name] :=
    nest_eq (.indented rfl hne rfl .nil)
  rw [renderAt_eq_renderWith settings depth, renderWith_of_check htokens rfl, hnest, evaluateAll,
    evaluate, evaluateAll]
  simp only [hempty, Bool.false_eq_true, if_false, expandAt, if_pos hdepth]
  cases renderAt settings (depth + 1) (indentLines blanks
    (dropEndSpaces (Context.resolveText scopes name).toList)) scopes with
  | error e => rfl
  | ok out =>
    show Except.ok (String.ofList blanks ++ out ++ "") = Except.ok (String.ofList blanks ++ out)
    rw [String.append_empty]

/-- A partial on an indented line has the indentation written in front of what its body is
    rendered to, with all lines of the body but the first one indented. This is what the body is
    rendered to with the indentation in front of each of its lines, unless the first tag stands
    alone on the first line. If such a tag is no partial, the indentation is written once more
    than this. -/
theorem standalone_partial_is_indented (hd : settings.delimiters.Usable)
    (hb : blanks.all isInlineBlank = true) (hne : blanks ≠ []) {written name ending : List Char}
    (hname : scan settings.delimiters written = .ok [⟨.expansion, name, 1⟩])
    (hending : ending = [] ∨ ending = ['\n']) {depth : Nat}
    (hdepth : depth < settings.maxPartialDepth) {scopes : List Context} {body : List Char}
    (hbody : dropEndSpaces (Context.resolveText scopes name).toList = body) (hbne : body ≠ []) :
    let output := renderAt settings depth (blanks ++ written ++ ending) scopes
    let indented := (Text.lines body).flatMap (blanks ++ ·)
    output = (renderAt settings (depth + 1) (indentLines blanks body) scopes).map
      (String.ofList blanks ++ ·) ∧
    ((∀ r, Reads settings.delimiters r → r.source = indentLines blanks body →
        ¬ r.StandsAtStart) →
      output = renderAt settings (depth + 1) indented scopes) ∧
    ∀ text tag rest, Reads settings.delimiters (.cons text tag rest) →
      (Reading.cons text tag rest).source = indentLines blanks body →
      (Reading.cons text tag rest).StandsAtStart → tag.kind ≠ .expansion →
      output = (renderAt settings (depth + 1) indented scopes).map (String.ofList blanks ++ ·) := by
  simp only
  have houtput := renderAt_indented_line hd hb hne hname hending hdepth scopes
  rw [hbody] at houtput
  rw [houtput, flatMap_lines blanks hbne]
  refine ⟨rfl, fun h => ?_, fun text tag rest hr hs hstands hk => ?_⟩
  · rw [renderAt_eq_renderWith settings (depth + 1), renderWith_blanks hd hb hne h]
  · have htokens := tokenize_blanks_of_standsAtStart hb hd hr hstands hk
    rw [hs] at htokens
    rw [renderAt_eq_renderWith settings (depth + 1), renderWith, renderWith, htokens]

/-- In a partial that starts with a text, the lines of a section are indented. -/
theorem standalone_partial_is_indented_section_in_body :
    let settings : Settings := ⟨⟨"<%".toList, "%>".toList⟩, 1, true⟩
    let scopes : List Context := [.object [("l", .array [.string "u", .string "v"]),
      ("p", .string "a<%#l%>\n<%.%><%/l%>  ")]]
    let body := "a<%#l%>\n<%.%><%/l%>".toList
    dropEndSpaces (Context.resolveText scopes ['p']).toList = body ∧
    renderAt settings 0 ("\t ".toList ++ "<%>p%>".toList ++ ['\n']) scopes =
      .ok "\t a\n\t u\n\t v" ∧
    renderAt settings 1 ((Text.lines body).flatMap ("\t ".toList ++ ·)) scopes =
      .ok "\t a\n\t u\n\t v" := by
  intro settings scopes body
  have hd : settings.delimiters.Usable := by decide
  have hname : scan settings.delimiters "<%>p%>".toList = .ok [⟨.expansion, ['p'], 1⟩] := by cbv
  have hbody : dropEndSpaces (Context.resolveText scopes ['p']).toList = body := by cbv
  have hb : "\t ".toList.all isInlineBlank = true := by decide
  have hne : "\t ".toList ≠ [] := by decide
  have hbne : body ≠ [] := by decide
  have hdepth : 0 < settings.maxPartialDepth := by decide
  have hlines : indentLines "\t ".toList "a<%#l%>\n<%.%><%/l%>".toList =
      "a<%#l%>\n\t <%.%><%/l%>".toList := by cbv
  have hscan : scan settings.delimiters "a<%#l%>\n\t <%.%><%/l%>".toList =
      .ok [⟨.text, ['a'], 1⟩, ⟨.opener, ['l'], 1⟩, ⟨.text, "\n\t ".toList, 1⟩,
        ⟨.escaped, ['.'], 2⟩, ⟨.ender, ['l'], 2⟩] := by cbv
  have hstart : ∀ r, Reads settings.delimiters r → r.source = indentLines "\t ".toList body →
      ¬ r.StandsAtStart := by
    intro r hr hs
    rw [← hlines, ← hs] at hscan
    exact not_standsAtStart_of_scan hd hr hscan (by decide)
  have houtput : renderAt settings 0 ("\t ".toList ++ "<%>p%>".toList ++ ['\n']) scopes =
      .ok "\t a\n\t u\n\t v" := by
    rw [renderAt_eq_evaluateAt]
    cbv
  have hsame := (standalone_partial_is_indented hd hb hne hname (.inr rfl) hdepth hbody hbne).2.1
    hstart
  exact ⟨hbody, houtput, hsame.symm.trans houtput⟩

/-- A comment that has the first line of a partial to itself does not take the indentation that
    has been written in front of it. -/
theorem comment_line_is_indented_twice :
    let settings : Settings := {}
    let body := "\x7b\x7b!c\x7d\x7d\nx"
    let scopes : List Context := [.object [("p", .string body)]]
    Context.resolve scopes ['p'] = some (.string body) ∧
    renderAt settings 0 "  \x7b\x7b>p\x7d\x7d".toList scopes = .ok "    x" ∧
    renderAt settings 1 ((Text.lines (dropEndSpaces body.toList)).flatMap ("  ".toList ++ ·))
      scopes = .ok "  x" := by
  intro settings body scopes
  refine ⟨by cbv, ?_, ?_⟩
  · rw [renderAt_eq_evaluateAt]
    cbv
  · rw [renderAt_eq_evaluateAt]
    cbv

end Render

end Mustache
