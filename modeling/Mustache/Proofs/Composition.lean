import Mustache.Proofs.Reading.Append
import Mustache.Proofs.Run.Swap

/-!
# Rendering templates one after the other

A template that is cut at the end of a line is rendered to the outputs of the two pieces, one
after the other. The tokens of the whole differ from those of the pieces in two ways, neither of
which shows in the output: they are further down (`Nests.of_map_unlined`), and a text may be in
one piece that was in two (`run_append_joined`).

* `templates_compose_at_line_ends`: tokens and outputs of the whole template.
-/

namespace Mustache

namespace Template

/-! ## Lines do not matter -/

/-- The token on no line in particular. -/
def Token.unlined (t : Token) : Token := { t with line := 0 }

theorem map_unlined_shift (n : Nat) (tokens : List Token) :
    (tokens.map (·.shift n)).map Token.unlined = tokens.map Token.unlined := by
  rw [List.map_map]
  rfl

theorem eq_of_unlined {a b : Token} (h : a.unlined = b.unlined) :
    a.kind = b.kind ∧ a.value = b.value := by
  have hkind : a.unlined.kind = b.unlined.kind := congrArg _ h
  have hvalue : a.unlined.value = b.unlined.value := congrArg _ h
  exact ⟨hkind, hvalue⟩

theorem leaf?_of_unlined {a b : Token} (h : a.unlined = b.unlined) : leaf? a = leaf? b := by
  rw [leaf?, leaf?, (eq_of_unlined h).1, (eq_of_unlined h).2]

/-- Tokens on other lines have the same tree. -/
theorem Nests.of_map_unlined {tokens tokens' : List Token} {pieces : List Piece}
    (h : Nests tokens pieces) (he : tokens'.map Token.unlined = tokens.map Token.unlined) :
    Nests tokens' pieces := by
  induction h generalizing tokens' with
  | nil =>
    obtain rfl := List.map_eq_nil_iff.1 he
    exact .nil
  | leaf hl _ ih =>
    obtain ⟨token, rest, rfl, ht, hr⟩ := List.map_eq_cons_iff.1 he
    exact .leaf ((leaf?_of_unlined ht).trans hl) (ih hr)
  | indented hi hne hk _ ih =>
    obtain ⟨indenter, more, rfl, hind, hm⟩ := List.map_eq_cons_iff.1 he
    obtain ⟨token, rest, rfl, ht, hr⟩ := List.map_eq_cons_iff.1 hm
    obtain ⟨hik, hiv⟩ := eq_of_unlined hind
    obtain ⟨htk, htv⟩ := eq_of_unlined ht
    rw [← hiv, ← htv]
    exact .indented (hik.trans hi) (hiv ▸ hne) (htk.trans hk) (ih hr)
  | block ho hk hv _ _ ihbody ihrest =>
    obtain ⟨opener, more, rfl, hopener, hm⟩ := List.map_eq_cons_iff.1 he
    rw [List.map_append] at hm
    obtain ⟨inner, behind, rfl, hinner, hb⟩ := List.map_eq_append_iff.1 hm
    obtain ⟨ender, rest, rfl, hender, hr⟩ := List.map_eq_cons_iff.1 hb
    obtain ⟨hok, hov⟩ := eq_of_unlined hopener
    obtain ⟨hek, hev⟩ := eq_of_unlined hender
    rw [← hov]
    exact .block (hok.trans ho) (hek.trans hk) (hov.trans (hv.trans hev.symm)) (ihbody hinner)
      (ihrest hr)
  | inverse ho hk hv _ _ ihbody ihrest =>
    obtain ⟨opener, more, rfl, hopener, hm⟩ := List.map_eq_cons_iff.1 he
    rw [List.map_append] at hm
    obtain ⟨inner, behind, rfl, hinner, hb⟩ := List.map_eq_append_iff.1 hm
    obtain ⟨ender, rest, rfl, hender, hr⟩ := List.map_eq_cons_iff.1 hb
    obtain ⟨hok, hov⟩ := eq_of_unlined hopener
    obtain ⟨hek, hev⟩ := eq_of_unlined hender
    rw [← hov]
    exact .inverse (hok.trans ho) (hek.trans hk) (hov.trans (hv.trans hev.symm)) (ihbody hinner)
      (ihrest hr)

/-! ## Nested tokens among others -/

theorem Nests.append {s t : List Token} {p q : List Piece} (hs : Nests s p) (ht : Nests t q) :
    Nests (s ++ t) (p ++ q) := by
  induction hs with
  | nil => exact ht
  | leaf hl _ ih => exact .leaf hl ih
  | indented hi hne hk _ ih => exact .indented hi hne hk ih
  | block ho hk hv hbody _ _ ihrest =>
    rw [List.cons_append, List.append_assoc, List.cons_append, List.cons_append]
    exact .block ho hk hv hbody ihrest
  | inverse ho hk hv hbody _ _ ihrest =>
    rw [List.cons_append, List.append_assoc, List.cons_append, List.cons_append]
    exact .inverse ho hk hv hbody ihrest

namespace Sections

/-- The check depends on what follows only through what the check of that comes to. -/
theorem checkFrom_append_congr {t t' : List Token}
    (h : ∀ opened, checkFrom opened t = checkFrom opened t') (s opened : List Token) :
    checkFrom opened (s ++ t) = checkFrom opened (s ++ t') := by
  induction s generalizing opened with
  | nil => exact h opened
  | cons token s ih =>
    rw [List.cons_append, List.cons_append, checkFrom.eq_def, checkFrom.eq_def opened]
    simp only [ih]

/-- The check takes no note of a text. -/
theorem check_append_joined (s t u : List Token) : check (s ++ joined t u) = check (s ++ t ++ u) := by
  rcases joined_eq_or t u with h | ⟨before, a, b, after, rfl, rfl, ha, hb, h⟩
  · rw [h, List.append_assoc]
  · rw [h, List.append_assoc, List.append_assoc, check, check, ← List.append_assoc,
      ← List.append_assoc]
    refine checkFrom_append_congr (fun opened => ?_) _ _
    rw [List.singleton_append, checkFrom_stays (by rw [ha, Kind.role]),
      checkFrom_stays (by rw [ha, Kind.role]), checkFrom_stays (by rw [hb, Kind.role])]

/-- Further down, the check comes to the same, or to the same error further down. -/
theorem checkFrom_shift (n : Nat) (tokens opened : List Token) :
    checkFrom (opened.map (·.shift n)) (tokens.map (·.shift n)) =
      (checkFrom opened tokens).mapError (·.shift n) := by
  induction tokens generalizing opened with
  | nil => cases opened <;> rfl
  | cons token rest ih =>
    rw [List.map_cons]
    have hrole : (token.shift n).kind.role = token.kind.role := rfl
    cases hr : token.kind.role with
    | opens => rw [checkFrom_opens hr, checkFrom_opens (hrole.trans hr), ← ih, List.map_cons]
    | stays => rw [checkFrom_stays hr, checkFrom_stays (hrole.trans hr), ih]
    | closes =>
      have hk := role_eq_closes_iff.1 hr
      cases opened with
      | nil => simp [checkFrom, Token.shift, hk, Except.mapError, TemplateError.shift]
      | cons innermost outer =>
        by_cases hv : innermost.value = token.value
        · simp [checkFrom, Token.shift, hk, hv, ← ih]
        · simp [checkFrom, Token.shift, hk, hv, Except.mapError, TemplateError.shift]

theorem check_shift (n : Nat) (tokens : List Token) :
    check (tokens.map (·.shift n)) = (check tokens).mapError (·.shift n) :=
  checkFrom_shift n tokens []

end Sections

theorem IndentersLead.map_shift {tokens : List Token} (h : IndentersLead tokens) (n : Nat) :
    IndentersLead (tokens.map (·.shift n)) := by
  induction tokens with
  | nil => trivial
  | cons token rest ih =>
    refine ⟨fun hk => ?_, ih h.2⟩
    obtain ⟨hne, hb, next, later, rfl, hn⟩ := h.1 hk
    exact ⟨hne, hb, _, _, rfl, hn⟩

/-! ## The pieces of a template that is cut at the end of a line -/

section

variable {d : Delimiters}

/-- Where no text goes on over the cut, the tokens of the two pieces are those of the whole, save
    for the lines they are on. -/
theorem exists_tokenize_append {d' : Delimiters} {s t : List Char} {earlier later : List Token}
    (hd : d.Usable) (hs : tokenize d s = .ok earlier) (hl : Text.EndsLine s)
    (hlast : delimitersAfter d s = d') (ht : tokenize d' t = .ok later)
    (hj : ∀ n, joined earlier (later.map (·.shift n)) = earlier ++ later.map (·.shift n)) :
    ∃ tokens, tokenize d (s ++ t) = .ok tokens ∧
      tokens.map Token.unlined = (earlier ++ later).map Token.unlined := by
  refine ⟨earlier ++ later.map (·.shift (Text.lineFeeds s)), ?_, ?_⟩
  · rw [tokenize_append hd hs hl t, hlast, ht, ← hj]
    rfl
  · rw [List.map_append, List.map_append, map_unlined_shift]

/-- If the first piece is balanced, then the second one is read as properly as the whole. -/
theorem exists_of_tokenize_append {s t : List Char} {earlier tokens : List Token} (hd : d.Usable)
    (hs : tokenize d s = .ok earlier) (hb : Balanced earlier) (hl : Text.EndsLine s)
    (h : tokenize d (s ++ t) = .ok tokens) (hc : Sections.check tokens = .ok ()) :
    ∃ later, tokenize (delimitersAfter d s) t = .ok later ∧ Sections.check later = .ok () := by
  rw [tokenize_append hd hs hl t] at h
  cases ht : tokenize (delimitersAfter d s) t with
  | error e => rw [ht] at h; cases h
  | ok later =>
    rw [ht] at h
    cases h
    have hmoved : Sections.check (later.map (·.shift (Text.lineFeeds s))) = .ok () := by
      rw [Sections.check, ← Sections.checkFrom_append_of_balanced hb []]
      exact (Sections.check_append_joined [] earlier _).symm.trans hc
    rw [Sections.check_shift] at hmoved
    cases hlater : Sections.check later with
    | error e => rw [hlater] at hmoved; cases hmoved
    | ok _ => exact ⟨later, rfl, hlater⟩

end

end Template

namespace Render

open Template

variable {settings : Settings} {expansion : Expansion}

theorem evaluateAll_append (p q : List Piece) (scopes : List Context) :
    evaluateAll settings expansion (p ++ q) scopes = (do
      let first ← evaluateAll settings expansion p scopes
      let others ← evaluateAll settings expansion q scopes
      return first ++ others) := by
  induction p with
  | nil =>
    show _ = evaluateAll settings expansion q scopes >>= fun others => pure ("" ++ others)
    simp
  | cons piece p ih =>
    rw [List.cons_append, evaluateAll, evaluateAll, ih]
    simp only [bind_assoc, pure_bind, String.append_assoc]

/-- A piece without output may be left out. -/
theorem evaluateAll_cons_of_eq_empty {piece : Piece} {scopes : List Context}
    (h : evaluate settings expansion piece scopes = .ok "") (pieces : List Piece) :
    evaluateAll settings expansion (piece :: pieces) scopes =
      evaluateAll settings expansion pieces scopes := by
  rw [evaluateAll, h]
  show evaluateAll settings expansion pieces scopes >>= (fun others => pure ("" ++ others)) = _
  simp

/-- Two texts have the output of one text. -/
theorem evaluateAll_texts (a b : List Char) (scopes : List Context) :
    evaluateAll settings expansion [.text a, .text b] scopes =
      evaluateAll settings expansion [.text (a ++ b)] scopes := by
  show (Except.ok (String.ofList a ++ (String.ofList b ++ "")) : Except TemplateError String) =
    .ok (String.ofList (a ++ b) ++ "")
  rw [String.append_empty, String.append_empty, String.ofList_append]

/-- A text in one piece has the output of the same text in two. -/
theorem run_append_joined {s t u : List Token} (hi : IndentersLead (s ++ t ++ u))
    (hc : Sections.check (s ++ t ++ u) = .ok ()) (scopes : List Context) :
    run settings expansion (s ++ joined t u).toArray (.start scopes) =
      run settings expansion (s ++ t ++ u).toArray (.start scopes) := by
  rcases joined_eq_or t u with h | ⟨before, a, b, after, rfl, rfl, ha, hb, h⟩
  · rw [h, List.append_assoc]
  · let w : Swap := {
      before := s ++ before
      old := [a, b]
      new := [{ a with value := a.value ++ b.value }]
      after := after
      oldPieces := [.text a.value, .text b.value]
      newPieces := [.text (a.value ++ b.value)]
      leaves_old := by simp [Leaves, leaf?, ha, hb]
      nests_new := .leaf (by simp [leaf?, ha]) .nil
      old_ne_nil := by simp }
    have hsource : s ++ (before ++ [a]) ++ b :: after = w.source := by simp [w, Swap.source]
    have htarget : s ++ joined (before ++ [a]) (b :: after) = w.target := by
      simp [w, Swap.target, h]
    rw [hsource] at hi hc ⊢
    have hat : w.source[w.before.length]? = some a := by simp [w, Swap.source]
    rw [htarget]
    exact (Swap.run_target sequential_eq hc hi
      (indentationAt_eq_none hi hat (by rw [ha]; decide))
      fun _ _ _ => evaluateAll_texts a.value b.value _).symm

/-- Tokens on other lines pass the check as well, and have the same output. -/
theorem run_of_map_unlined {tokens tokens' : List Token} (hi : IndentersLead tokens)
    (hc : Sections.check tokens = .ok ())
    (he : tokens'.map Token.unlined = tokens.map Token.unlined) (scopes : List Context) :
    Sections.check tokens' = .ok () ∧
      run settings expansion tokens'.toArray (.start scopes) =
        run settings expansion tokens.toArray (.start scopes) := by
  have hn := nests_nest hi hc
  have hn' := hn.of_map_unlined he
  exact ⟨Sections.check_of_balanced hn'.balanced, (run_nests hn' scopes).trans (run_nests hn scopes).symm⟩

/-- A template that is cut at the end of a line has the output of the tokens of the two pieces. -/
theorem renderWith_append_eq {s t : List Char} {earlier later : List Token}
    (hd : settings.delimiters.Usable) (hl : Text.EndsLine s)
    (hs : tokenize settings.delimiters s = .ok earlier)
    (ht : tokenize (delimitersAfter settings.delimiters s) t = .ok later)
    (hc : Sections.check (earlier ++ later) = .ok ()) (scopes : List Context) :
    renderWith settings expansion (s ++ t) scopes =
      run settings expansion (earlier ++ later).toArray (.start scopes) := by
  have htokens := tokenize_append hd hs hl t
  rw [ht] at htokens
  have hsi := indentersLead_of_tokenize hs
  have hti := indentersLead_of_tokenize ht
  -- The second piece further down, and then a text in one piece.
  obtain ⟨hmoved, hrun⟩ := @run_of_map_unlined settings expansion _
    (earlier ++ later.map (·.shift (Text.lineFeeds s))) (hsi.append hti) hc
    (by rw [List.map_append, List.map_append, map_unlined_shift]) scopes
  have hcheck := Sections.check_append_joined [] earlier (later.map (·.shift (Text.lineFeeds s)))
  have hjoined := @run_append_joined settings expansion [] earlier _
    (hsi.append (hti.map_shift _)) hmoved scopes
  rw [List.nil_append, List.nil_append] at hcheck hjoined
  rw [renderWith_of_tokenize htokens, hcheck, hmoved]
  exact hjoined.trans hrun

/-- Its output is that of the trees of the two pieces. -/
theorem renderWith_append_of_nests {s t : List Char} {earlier later : List Token}
    {p q : List Piece} (hd : settings.delimiters.Usable) (hl : Text.EndsLine s)
    (hs : tokenize settings.delimiters s = .ok earlier)
    (ht : tokenize (delimitersAfter settings.delimiters s) t = .ok later)
    (hp : Nests earlier p) (hq : Nests later q) (scopes : List Context) :
    renderWith settings expansion (s ++ t) scopes =
      evaluateAll settings expansion (p ++ q) scopes := by
  have hnests := hp.append hq
  rw [renderWith_append_eq hd hl hs ht (Sections.check_of_balanced hnests.balanced),
    run_nests hnests]

/-- Templates that are cut from one at the end of a line are rendered one after the other. -/
theorem renderWith_append {s t : List Char} {scopes : List Context} {out more : String}
    (hd : settings.delimiters.Usable) (hl : Text.EndsLine s)
    (hlast : delimitersAfter settings.delimiters s = settings.delimiters)
    (hs : renderWith settings expansion s scopes = .ok out)
    (ht : renderWith settings expansion t scopes = .ok more) :
    renderWith settings expansion (s ++ t) scopes = .ok (out ++ more) := by
  obtain ⟨earlier, hse, hsc, hsout⟩ := exists_of_renderWith_eq_ok hs
  obtain ⟨later, hte, htc, htout⟩ := exists_of_renderWith_eq_ok ht
  rw [renderWith_append_of_nests hd hl hse (hlast.symm ▸ hte)
    (nests_nest (indentersLead_of_tokenize hse) hsc)
    (nests_nest (indentersLead_of_tokenize hte) htc), evaluateAll_append, hsout, htout]
  rfl

/-- A template that is cut at the end of a line has the tokens of the two pieces, one after the
    other and up to a text in which the pieces meet, with what is on the lines of the second
    piece further down; it is improper where the second piece is. If that starts with the
    delimiters that the template starts with, the template has the outputs of the two pieces. -/
theorem templates_compose_at_line_ends {d : Delimiters} (hd : d.Usable) {s t : String}
    {tokens : List Token} (h : tokenize d s.toList = .ok tokens)
    (hl : Text.EndsLine s.toList) :
    tokenize d (s ++ t).toList =
      ((tokenize (delimitersAfter d s.toList) t.toList).map fun later =>
        joined tokens (later.map (·.shift (Text.lineFeeds s.toList)))).mapError
          (·.shift (Text.lineFeeds s.toList)) ∧
    ∀ (settings : Settings) (data : Context) (out more : String), settings.delimiters = d →
      delimitersAfter d s.toList = d → render settings s data = .ok out →
      render settings t data = .ok more → render settings (s ++ t) data = .ok (out ++ more) := by
  rw [String.toList_append]
  refine ⟨tokenize_append hd h hl t.toList, fun settings data out more hdelim hlast hs ht => ?_⟩
  subst hdelim
  simp only [render, renderAt_eq_renderWith, String.toList_append] at hs ht ⊢
  exact renderWith_append hd hl hlast hs ht

/-- The second template starts with a line that a section tag takes. -/
theorem templates_compose_at_line_ends_section_line :
    let d : Delimiters := ⟨"<%".toList, "%>".toList⟩
    let settings : Settings := ⟨d, 1, true⟩
    let data : Context := .object [("x", .string "1"), ("l", .array [.string "u", .string "v"])]
    d.Usable ∧ Text.EndsLine "a<%x%>\n".toList ∧ delimitersAfter d "a<%x%>\n".toList = d ∧
    tokenize d "a<%x%>\n <%#l%>\n<%.%><%/l%>".toList =
      .ok [⟨.text, "a".toList, 1⟩, ⟨.escaped, "x".toList, 1⟩, ⟨.text, "\n".toList, 1⟩,
        ⟨.opener, "l".toList, 2⟩, ⟨.escaped, ".".toList, 3⟩,
        ⟨.ender, "l".toList, 3⟩] ∧
    render settings "a<%x%>\n <%#l%>\n<%.%><%/l%>" data = .ok "a1\nuv" := by
  have hd : Delimiters.Usable ⟨"<%".toList, "%>".toList⟩ := by decide
  have hs : tokenize ⟨"<%".toList, "%>".toList⟩ "a<%x%>\n".toList =
      .ok [⟨.text, "a".toList, 1⟩, ⟨.escaped, "x".toList, 1⟩, ⟨.text, "\n".toList, 1⟩] := by
    cbv
  have ht : tokenize ⟨"<%".toList, "%>".toList⟩ " <%#l%>\n<%.%><%/l%>".toList =
      .ok [⟨.opener, "l".toList, 1⟩, ⟨.escaped, ".".toList, 2⟩,
        ⟨.ender, "l".toList, 2⟩] := by cbv
  have hl : Text.EndsLine "a<%x%>\n".toList := by simp [Text.EndsLine]
  have hlast : delimitersAfter ⟨"<%".toList, "%>".toList⟩ "a<%x%>\n".toList =
      ⟨"<%".toList, "%>".toList⟩ := by cbv
  obtain ⟨htokens, hrender⟩ :=
    templates_compose_at_line_ends (t := " <%#l%>\n<%.%><%/l%>") hd hs hl
  rw [hlast, ht] at htokens
  exact ⟨hd, hl, hlast, htokens, hrender ⟨⟨"<%".toList, "%>".toList⟩, 1, true⟩ _ "a1\n" "uv"
    rfl hlast (by cbv) (by cbv)⟩

end Render

end Mustache
