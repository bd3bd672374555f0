import Mustache.Proofs.Composition
import Mustache.Proofs.Reading.LoneTag

/-!
# Partials written out

A partial that has a line to itself can be replaced by its body, if that ends a line and leaves
neither sections nor other delimiters behind: the body is then rendered among the tokens of the
template as it is on its own, where the template comes by the partial. There it is not nested as
deeply any more, so that less can fail (`keeps_renderAt`).

* `inlined_partial_has_same_output`: the output of a template with the body in place.
-/

namespace Mustache

namespace Template

/-- The line of a partial that is not indented leaves nothing but the partial. -/
theorem tokenize_partial_line {d : Delimiters} {written name : List Char} (hd : d.Usable)
    (h : scan d written = .ok [⟨.expansion, name, 1⟩]) :
    tokenize d (written ++ ['\n']) = .ok [⟨.expansion, name, 1⟩] ∧
      delimitersAfter d (written ++ ['\n']) = d := by
  have hnil : ([] : List Char).all isInlineBlank = true := rfl
  obtain ⟨htokens, hlast⟩ := tokenize_line_of_scan h hd rfl hnil hnil (.inr rfl)
  exact ⟨htokens, hlast (by decide)⟩

/-- Nested tokens may stand in the place of a tag that neither opens nor closes a section. -/
theorem Sections.check_inlined {token : Token} (hr : token.kind.role = .stays) {body : List Token}
    {pieces : List Piece} (h : Nests body pieces) (s t : List Token) :
    check (s ++ [token] ++ t) = check (s ++ body ++ t) := by
  rw [List.append_assoc, List.append_assoc]
  refine checkFrom_append_congr (fun opened => ?_) s []
  rw [List.singleton_append, checkFrom_stays hr, checkFrom_append_of_balanced h.balanced]

end Template

namespace Render

open Template

variable {settings : Settings} {expansion : Expansion}

/-- A template that is cut at the ends of two lines has the output of the tokens of the pieces. -/
theorem renderWith_append_append {s t u : List Char} {a b c : List Token}
    (hd : settings.delimiters.Usable) (hls : Text.EndsLine s) (hlt : Text.EndsLine t)
    (hlasts : delimitersAfter settings.delimiters s = settings.delimiters)
    (hlastt : delimitersAfter settings.delimiters t = settings.delimiters)
    (hs : tokenize settings.delimiters s = .ok a) (ht : tokenize settings.delimiters t = .ok b)
    (hu : tokenize settings.delimiters u = .ok c)
    (hc : Sections.check (a ++ b ++ c) = .ok ()) (scopes : List Context) :
    renderWith settings expansion (s ++ (t ++ u)) scopes =
      run settings expansion (a ++ b ++ c).toArray (.start scopes) := by
  have hsi := indentersLead_of_tokenize hs
  have hti := indentersLead_of_tokenize ht
  have hui := indentersLead_of_tokenize hu
  obtain ⟨hmoved, hrun⟩ := @run_of_map_unlined settings expansion _
    (a ++ b ++ c.map (·.shift (Text.lineFeeds t))) ((hsi.append hti).append hui) hc
    (by rw [List.map_append, map_unlined_shift, ← List.map_append]) scopes
  have htokens := tokenize_append hd ht hlt u
  rw [hlastt, hu] at htokens
  have hcheck := Sections.check_append_joined a b (c.map (·.shift (Text.lineFeeds t)))
  rw [renderWith_append_eq hd hls hs (hlasts.symm ▸ htokens) (hcheck.trans hmoved),
    run_append_joined ((hsi.append hti).append (hui.map_shift _)) hmoved, hrun]

/-- A partial that is not indented keeps its output if its body is evaluated in place, as it is
    not nested any more. -/
theorem keeps_expansion {p : List Char} {b : String} {tokens : List Token} {scopes : List Context}
    (hb : tokenize settings.delimiters b.toList = .ok tokens)
    (hc : Sections.check tokens = .ok ()) (hbody : Context.resolveText scopes p = b) :
    Keeps (evaluateAll settings (expandAt settings 0) [.expansion [] p] scopes)
      (evaluateAll settings (expandAt settings 0) (nest tokens) scopes) := by
  have hinline : Keeps (expandAt settings 0 p b.toList scopes)
      (evaluateAll settings (expandAt settings 0) (nest tokens) scopes) := by
    intro out hout
    rw [expandAt] at hout
    split at hout
    · rw [← renderWith_of_check hb hc, ← renderAt_eq_renderWith]
      exact keeps_renderAt settings (Nat.zero_le 1) _ _ out hout
    · cases hout
  have heq : evaluateAll settings (expandAt settings 0) [.expansion [] p] scopes =
      expandAt settings 0 p b.toList scopes := by
    rw [evaluateAll, evaluate, evaluateAll, hbody]
    simp only [List.isEmpty_nil, if_true]
    cases expandAt settings 0 p b.toList scopes with
    | error e => rfl
    | ok out =>
      show Except.ok (String.ofList [] ++ out ++ "") = Except.ok out
      simp
  rw [heq]
  exact hinline

/-- The tokens around a partial that has a line to itself. -/
theorem exists_tokens_of_line {d : Delimiters} (hd : d.Usable) {s t line name : List Char}
    {earlier tokens : List Token} (hs : tokenize d s = .ok earlier) (hl : Text.EndsLine s)
    (hlast : delimitersAfter d s = d) (hline : tokenize d line = .ok [⟨.expansion, name, 1⟩])
    (hll : Text.EndsLine line) (hlinelast : delimitersAfter d line = d)
    (h : tokenize d (s ++ (line ++ t)) = .ok tokens) :
    ∃ later n, tokenize d t = .ok later ∧
      tokens = earlier ++ [⟨.expansion, name, 1 + Text.lineFeeds s⟩] ++ later.map (·.shift n) := by
  rw [tokenize_append hd hs hl, hlast, tokenize_append hd hline hll, hlinelast] at h
  cases ht : tokenize d t with
  | error e => rw [ht] at h; cases h
  | ok later =>
    rw [ht] at h
    refine ⟨later, Text.lineFeeds line + Text.lineFeeds s, rfl, ?_⟩
    have htokens : joined earlier ((joined [⟨.expansion, name, 1⟩]
        (later.map (·.shift (Text.lineFeeds line)))).map (·.shift (Text.lineFeeds s))) = tokens :=
      Except.ok.inj h
    have htag : (Token.shift (Text.lineFeeds s) ⟨.expansion, name, 1⟩).kind ≠ .text := by
      simp [Token.shift]
    rw [joined_singleton_of_ne (by simp), List.map_cons, joined_cons_of_ne htag,
      List.map_map] at htokens
    rw [← htokens, List.append_assoc]
    congr 3
    funext token
    simp [Token.shift, Nat.add_assoc]

/-- A template with the body of a partial instead of its line, where this is the body whenever
    the template comes by it, has the same output. -/
theorem inlined_partial_has_same_output (hs : settings.fault? = none) {A P b B : String}
    {p : List Char} {data : Context} {out : String} {tokensA tokensb tokens : List Token}
    (hA : tokenize settings.delimiters A.toList = .ok tokensA)
    (hlA : Text.EndsLine A.toList)
    (hdA : delimitersAfter settings.delimiters A.toList = settings.delimiters)
    (hP : scan settings.delimiters P.toList = .ok [⟨.expansion, p, 1⟩])
    (hb : tokenize settings.delimiters b.toList = .ok tokensb)
    (hcb : Sections.check tokensb = .ok ())
    (hlb : Text.EndsLine b.toList)
    (hdb : delimitersAfter settings.delimiters b.toList = settings.delimiters)
    (htokens : tokenize settings.delimiters (A ++ P ++ "\n" ++ B).toList = .ok tokens)
    (hbody : ∀ s, Reaches settings (expandAt settings 0) tokens.toArray (.start [data]) s →
      s.cursor = tokensA.length → Context.resolveText s.scopes p = b)
    (h : render settings (A ++ P ++ "\n" ++ B) data = .ok out) :
    (∃ line, tokens[tokensA.length]? = some ⟨.expansion, p, line⟩) ∧
      render settings (A ++ b ++ B) data = .ok out := by
  have hd := Settings.usable_of_fault?_eq_none hs
  have hsource : (A ++ P ++ "\n" ++ B).toList = A.toList ++ (P.toList ++ ['\n'] ++ B.toList) := by
    simp
  have htarget : (A ++ b ++ B).toList = A.toList ++ (b.toList ++ B.toList) := by simp
  simp only [render, renderAt_eq_renderWith] at h ⊢
  rw [hsource] at htokens h
  rw [htarget]
  obtain ⟨hline, hlast⟩ := tokenize_partial_line hd hP
  obtain ⟨later, n, hB, rfl⟩ := exists_tokens_of_line hd hA hlA hdA hline
    (by simp [Text.EndsLine]) hlast htokens
  have hAi := indentersLead_of_tokenize hA
  have hBi := indentersLead_of_tokenize hB
  have hbi := indentersLead_of_tokenize hb
  refine ⟨⟨1 + Text.lineFeeds A.toList, by simp⟩, ?_⟩
  obtain ⟨_, htokens', hc, _⟩ := exists_of_renderWith_eq_ok h
  obtain rfl := Except.ok.inj (htokens.symm.trans htokens')
  let w : Swap := {
    before := tokensA
    old := [⟨.expansion, p, 1 + Text.lineFeeds A.toList⟩]
    new := tokensb
    after := later.map (·.shift n)
    oldPieces := [.expansion [] p]
    newPieces := nest tokensb
    leaves_old := by simp [Leaves, leaf?]
    nests_new := nests_nest hbi hcb
    old_ne_nil := by simp }
  have hrun := w.run_target sequential_keeps hc (indentersLead_of_tokenize htokens)
    (by rw [Swap.source, List.append_assoc]; exact indentationAt_length hAi _)
    fun s hs hcursor => keeps_expansion hb hcb (hbody s hs hcursor)
  rw [renderWith_of_tokenize htokens, hc] at h
  have hci : Sections.check w.target = .ok () :=
    (Sections.check_inlined (by rw [Kind.role]) w.nests_new _ _).symm.trans hc
  -- What follows is on other lines than it was behind the partial.
  obtain ⟨hcheck, hmoved⟩ := @run_of_map_unlined settings (expandAt settings 0) _
    (tokensA ++ tokensb ++ later) ((hAi.append hbi).append (hBi.map_shift n)) hci
    (by simp only [List.map_append, map_unlined_shift]) [data]
  rw [renderWith_append_append hd hlA hlb hdA hdb hA hb hB hcheck, hmoved]
  exact hrun out h

/-- The body of a partial inside a section is written out. -/
theorem inlined_partial_has_same_output_in_section :
    let settings : Settings := ⟨⟨"<%".toList, "%>".toList⟩, 1, true⟩
    let data : Context :=
      .object [("l", .array [.string "u", .string "v"]), ("p", .string "<%.%>\n")]
    render settings ("<%#l%>\n" ++ "<%>p%>" ++ "\n" ++ "<%/l%>") data = .ok "u\nv\n" ∧
      render settings ("<%#l%>\n" ++ "<%.%>\n" ++ "<%/l%>") data = .ok "u\nv\n" := by
  intro settings data
  let tokens : List Token := [⟨.opener, "l".toList, 1⟩, ⟨.expansion, "p".toList, 2⟩,
    ⟨.ender, "l".toList, 3⟩]
  have hd : settings.fault? = none := by decide
  have hA : tokenize settings.delimiters "<%#l%>\n".toList = .ok [⟨.opener, "l".toList, 1⟩] := by
    cbv
  have hdA : delimitersAfter settings.delimiters "<%#l%>\n".toList = settings.delimiters := by cbv
  have hP : scan settings.delimiters "<%>p%>".toList = .ok [⟨.expansion, "p".toList, 1⟩] := by cbv
  have hb : tokenize settings.delimiters "<%.%>\n".toList =
      .ok [⟨.escaped, ".".toList, 1⟩, ⟨.text, "\n".toList, 1⟩] := by cbv
  have hdb : delimitersAfter settings.delimiters "<%.%>\n".toList = settings.delimiters := by cbv
  have htokens : tokenize settings.delimiters
      ("<%#l%>\n" ++ "<%>p%>" ++ "\n" ++ "<%/l%>").toList = .ok tokens := by cbv
  have hrender : render settings ("<%#l%>\n" ++ "<%>p%>" ++ "\n" ++ "<%/l%>") data =
      .ok "u\nv\n" := by
    rw [render, renderAt_eq_evaluateAt]
    cbv
  let items : Array Context := #[.string "u", .string "v"]
  -- Inside the section, the innermost scope is one of the items.
  have hinside : ∀ s, Reaches settings (expandAt settings 0) tokens.toArray (.start [data]) s →
      s = .start [data] ∨ s.cursor = 3 ∨ (s.cursor = 1 ∨ s.cursor = 2) ∧
        ∃ item remaining, s.opened = [⟨"l".toList, .loop items 1 remaining⟩] ∧
          s.scopes = [.string item, data] := by
    intro s h
    induction h with
    | refl => exact .inl rfl
    | @step s t token _ hget hstep ih =>
      rcases ih with rfl | hcursor | ⟨hcursor | hcursor, item, remaining, ho, hscopes⟩
      · cases hget
        have hopener : step settings (expandAt settings 0) tokens.toArray (.start [data])
            ⟨.opener, "l".toList, 1⟩ =
              .ok ⟨1, [.string "u", data], [⟨"l".toList, .loop items 1 2⟩], none, ""⟩ := rfl
        cases hopener.symm.trans hstep
        exact .inr (.inr ⟨.inl rfl, "u", 2, rfl, rfl⟩)
      · rw [hcursor] at hget
        cases hget
      · rw [hcursor] at hget
        cases hget
        cases moves_of_step hstep with
        | stay _ hc hsc hop =>
          exact .inr (.inr ⟨.inr (by rw [hc, hcursor]), item, remaining, hop.trans ho,
            hsc.trans hscopes⟩)
        | skip hr | pass hr | scope hr | loop hr | leave hr | again hr => cases hr
      · rw [hcursor] at hget
        cases hget
        cases moves_of_step hstep with
        | leave => exact .inr (.inl (by simp [hcursor]))
        | again _ ho' hitem =>
          rw [ho] at ho'
          cases ho'
          have hm : _ ∈ [Context.string "u", .string "v"] :=
            Array.mem_toList_iff.2 (Array.mem_of_getElem? hitem)
          rcases List.mem_cons.1 hm with rfl | hm
          · exact .inr (.inr ⟨.inl rfl, "u", _, rfl, by rw [hscopes]; rfl⟩)
          · obtain rfl := List.mem_singleton.1 hm
            exact .inr (.inr ⟨.inl rfl, "v", _, rfl, by rw [hscopes]; rfl⟩)
        | stay hr | skip hr | pass hr | scope hr | loop hr => cases hr
  have hbody : ∀ s, Reaches settings (expandAt settings 0) tokens.toArray (.start [data]) s →
      s.cursor = 1 → Context.resolveText s.scopes "p".toList = "<%.%>\n" := by
    intro s h hcursor
    rcases hinside s h with rfl | hc | ⟨_, item, _, _, hscopes⟩
    · cases hcursor
    · omega
    · rw [hscopes]
      rfl
  exact ⟨hrender, (inlined_partial_has_same_output hd hA (by simp [Text.EndsLine]) hdA hP hb rfl
    (by simp [Text.EndsLine]) hdb htokens hbody hrender).2⟩

end Render

end Mustache
