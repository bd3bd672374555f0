import Mustache.Proofs.Reading.Append

/-!
# Blanks in front of a template

Blanks that are put in front of a template are read as text: no delimiter holds a blank, so all
tags stay as they are. What a tag takes of its lines stays the same as well, with one exception:
a tag that stands alone on the first line (`Reading.StandsAtStart`) takes the blanks too, or has
them in its indenter.

* `tokenize_blanks`: the tokens with blanks in front;
* `tokenize_blanks_of_standsAtStart`: the tokens if the first tag takes the blanks.
-/

namespace Mustache

namespace Text

variable {word s : List Char}

theorem lastLine_of_not_mem (h : '\n' ∉ s) : lastLine s = s :=
  lastLine_append_of_not_mem (s := []) h

/-- A text is clear of a word that shares no character with it. -/
theorem clearOf_of_disjoint (hw : word ≠ []) (hs : ∀ c ∈ s, c ∉ word) : ClearOf word s := by
  intro u v t he
  rw [List.append_assoc] at he
  rcases List.append_eq_append_iff.1 he with ⟨x, rfl, hv⟩ | ⟨u', rfl, ht⟩
  · cases x with
    | nil => exact ⟨[], by simp, by simpa using hv⟩
    | cons c x =>
      obtain ⟨d, word, rfl⟩ := List.exists_cons_of_ne_nil hw
      obtain ⟨rfl, -⟩ := List.cons.inj hv
      exact absurd List.mem_cons_self (hs d (by simp))
  · exact ⟨u', rfl, by rw [ht, List.append_assoc]⟩

end Text

namespace Template

/-- The first tag stands alone on the first line of the template. -/
def Reading.StandsAtStart : Reading → Prop
  | .last _ => False
  | .cons text tag rest =>
    text.all isInlineBlank = true ∧ Place.StandsAlone ⟨text, tag, rest.source⟩

/-- Something else than blanks in front of the first tag keeps it from standing alone. -/
theorem not_standsAtStart_of_scan {d : Delimiters} (hd : d.Usable) {r : Reading} (hr : Reads d r)
    {text : List Char} {line : Nat} {later : List Token}
    (h : scan d r.source = .ok (⟨.text, text, line⟩ :: later))
    (htext : text.all isInlineBlank = false) : ¬ r.StandsAtStart := by
  have htokens : scan d r.source = .ok (r.tokens 1) := Scanner.tokens_of_reads hr hd
  cases r with
  | last => exact id
  | cons first tag rest =>
    rintro ⟨hall, -⟩
    rw [h, Reading.tokens] at htokens
    by_cases hf : first = []
    · rw [hf, textTokens_nil, List.nil_append, Except.ok.injEq, List.cons.injEq] at htokens
      exact (hr.sealed hd).1.ne_text (congrArg Token.kind htokens.1).symm
    · rw [textTokens_of_ne_nil hf, List.singleton_append, Except.ok.injEq, List.cons.injEq]
        at htokens
      have hvalue : text = first := congrArg Token.value htokens.1
      rw [hvalue, hall] at htext
      cases htext

section

variable {blanks : List Char} (hb : blanks.all isInlineBlank = true)

include hb

theorem feed_not_mem_of_all : '\n' ∉ blanks := fun h =>
  absurd (List.all_eq_true.1 hb _ h) (by decide)

theorem lineFeeds_of_all : Text.lineFeeds blanks = 0 :=
  List.count_eq_zero.2 (feed_not_mem_of_all hb)

/-- No delimiter starts among blanks. -/
theorem clearOf_opening {d : Delimiters} (hd : d.Usable) : Text.ClearOf d.opening blanks := by
  refine Text.clearOf_of_disjoint hd.opening_ne_nil fun c hc ho => ?_
  have hsolid := isSolid_of_not_isReserved (hd.isReserved_opening c ho)
  rw [isSolid, Bool.and_eq_true, Bool.not_eq_true', List.all_eq_true.1 hb c hc] at hsolid
  cases hsolid.1

/-! ## The rule on lines, with blanks in front -/

namespace Place

variable (before after : List Char) (tag : Tag)

/-- Blanks in front do not keep a tag from standing alone. -/
theorem standsAlone_blanks :
    StandsAlone ⟨blanks ++ before, tag, after⟩ ↔ StandsAlone ⟨before, tag, after⟩ := by
  by_cases hm : '\n' ∈ before
  · simp only [StandsAlone, Text.lastLine_append_of_mem hm]
  · simp only [StandsAlone, Text.lastLine_append_of_not_mem hm, Text.lastLine_of_not_mem hm,
      Text.lastLine_of_not_mem (feed_not_mem_of_all hb), List.all_append, hb, Bool.true_and]

theorem line_blanks : line ⟨blanks ++ before, tag, after⟩ = line ⟨before, tag, after⟩ := by
  rw [line, line, Text.lineFeeds_append, lineFeeds_of_all hb, Nat.zero_add]

theorem trail_blanks : trail ⟨blanks ++ before, tag, after⟩ = trail ⟨before, tag, after⟩ := by
  simp only [trail, standsAlone_blanks hb]

variable {before after : List Char} {tag : Tag}
  (h : before.all isInlineBlank = true → ¬ StandsAlone ⟨before, tag, after⟩)

include h

omit hb in
/-- Unless a tag stands alone on the first line, its line is the same. -/
theorem lastLine_blanks (hs : StandsAlone ⟨before, tag, after⟩) :
    Text.lastLine (blanks ++ before) = Text.lastLine before := by
  refine Text.lastLine_append_of_mem (Classical.byContradiction fun hm => h ?_ hs)
  rw [← Text.lastLine_of_not_mem hm]
  exact hs.2.1

theorem lead_blanks : lead ⟨blanks ++ before, tag, after⟩ = lead ⟨before, tag, after⟩ := by
  by_cases hs : StandsAlone ⟨before, tag, after⟩
  · rw [lead, lead, if_pos hs, if_pos ((standsAlone_blanks hb ..).2 hs)]
    exact congrArg List.length (lastLine_blanks h hs)
  · rw [lead, lead, if_neg hs, if_neg (mt (standsAlone_blanks hb ..).1 hs)]

theorem tokens_blanks : tokens ⟨blanks ++ before, tag, after⟩ = tokens ⟨before, tag, after⟩ := by
  by_cases hs : StandsAlone ⟨before, tag, after⟩
  · simp only [tokens, standsAlone_blanks hb, line_blanks hb, lastLine_blanks h hs]
  · simp only [tokens, standsAlone_blanks hb, line_blanks hb, hs, false_and, if_false]

end Place

theorem cutTokens_blanks (before : List Char) (start stop : Nat) (text : List Char) :
    cutTokens (blanks ++ before) start stop text = cutTokens before start stop text := by
  simp only [cutTokens, Text.lineFeeds_append, lineFeeds_of_all hb, Nat.zero_add]

/-- Behind a line on which there is something else, the blanks do not matter. -/
theorem linesFrom_blanks {before : List Char} (hs : before.all isInlineBlank = false)
    (r : Reading) (taken : Nat) :
    r.linesFrom (blanks ++ before) taken = r.linesFrom before taken := by
  induction r generalizing before taken with
  | last text => exact cutTokens_blanks hb ..
  | cons text tag rest ih =>
    have hplace : (before ++ text).all isInlineBlank = true →
        ¬ Place.StandsAlone ⟨before ++ text, tag, rest.source⟩ := by simp [hs]
    simp only [Reading.linesFrom, List.append_assoc, cutTokens_blanks hb,
      Place.lead_blanks hb hplace, Place.tokens_blanks hb hplace, Place.trail_blanks hb]
    rw [ih (by simp [hs])]

omit hb in
theorem all_of_endsSolid {before : List Char} (h : EndsSolid before) :
    before.all isInlineBlank = false := by
  obtain ⟨s, c, rfl, hc⟩ := h
  rw [isSolid, Bool.and_eq_true, Bool.not_eq_true'] at hc
  simp [hc.1]

omit hb in
/-- A tag that is no partial and stands alone on the first line leaves nothing in front of it. -/
theorem linesFrom_of_standsAtStart {text : List Char} {tag : Tag} {rest : Reading}
    (h : (Reading.cons text tag rest).StandsAtStart) (hk : tag.kind ≠ .expansion) :
    (Reading.cons text tag rest).linesFrom [] 0 = ⟨tag.kind, tag.value, 1⟩ ::
      rest.linesFrom (text ++ tag.source) (Place.trail ⟨text, tag, rest.source⟩) := by
  obtain ⟨hall, halone⟩ := h
  have hlead : Place.lead ⟨text, tag, rest.source⟩ = text.length := by
    rw [Place.lead, if_pos halone, Text.lastLine_of_not_mem (feed_not_mem_of_all hall)]
  have hcut : cutTokens [] 0 text.length text = [] := by
    simp [cutTokens, textTokens_nil]
  have htokens : Place.tokens ⟨text, tag, rest.source⟩ = [⟨tag.kind, tag.value, 1⟩] := by
    simp [Place.tokens, hk, Place.line, lineFeeds_of_all hall]
  simp only [Reading.linesFrom, List.nil_append, hlead, hcut, htokens, List.singleton_append]

/-- Unless the first tag takes the blanks, they are a text in front of the tokens. -/
theorem linesFrom_prepend_blanks (hne : blanks ≠ []) {d : Delimiters} {r : Reading}
    (hr : Reads d r) (hd : d.Usable) (h : ¬ r.StandsAtStart) :
    (r.prepend blanks).linesFrom [] 0 = joined [⟨.text, blanks, 1⟩] (r.linesFrom [] 0) := by
  have hself : cutTokens [] 0 0 blanks = [⟨.text, blanks, 1⟩] := by
    simp [cutTokens, textTokens_of_ne_nil hne, Text.lineFeeds]
  have hcut : ∀ start stop text, cutTokens blanks start stop text = cutTokens [] start stop text := by
    intro start stop text
    rw [← cutTokens_blanks hb [], List.append_nil]
  cases r with
  | last text =>
    have hjoined := joined_cutTokens [] (Nat.zero_le blanks.length) (Nat.zero_le text.length) []
      (by simp)
    rw [List.nil_append, List.append_nil, List.append_nil, hself, hcut] at hjoined
    exact hjoined.symm
  | cons text tag rest =>
    have hs := (hr.sealed hd).1
    have hplace : text.all isInlineBlank = true → ¬ Place.StandsAlone ⟨text, tag, rest.source⟩ :=
      fun hall halone => h ⟨hall, halone⟩
    have hlead : Place.lead ⟨text, tag, rest.source⟩ ≤ text.length :=
      lead_le_of_endsLine (show Text.EndsLine [] by simp [Text.EndsLine]) text tag rest.source
    obtain ⟨token, later, htokens, hk⟩ :=
      Place.exists_tokens_eq_cons (p := ⟨text, tag, rest.source⟩) hs.ne_text
    have hjoined := joined_cutTokens [] (Nat.zero_le blanks.length) hlead
      (Place.tokens ⟨text, tag, rest.source⟩ ++
        rest.linesFrom (text ++ tag.source) (Place.trail ⟨text, tag, rest.source⟩))
      (by rw [htokens]; rintro _ ⟨⟩; exact hk)
    rw [List.nil_append, hself, hcut] at hjoined
    simp only [Reading.prepend, Reading.linesFrom, List.nil_append, List.append_assoc,
      Place.lead_blanks hb hplace, Place.tokens_blanks hb hplace, Place.trail_blanks hb,
      linesFrom_blanks hb (all_of_endsSolid (hs.ends.append))]
    exact hjoined.symm

/-- A tag that is no partial and stands alone on the first line takes the blanks. -/
theorem linesFrom_prepend_of_standsAtStart {text : List Char} {tag : Tag} {rest : Reading}
    {d : Delimiters} (hr : Reads d (.cons text tag rest)) (hd : d.Usable)
    (h : (Reading.cons text tag rest).StandsAtStart) (hk : tag.kind ≠ .expansion) :
    ((Reading.cons text tag rest).prepend blanks).linesFrom [] 0 =
      (Reading.cons text tag rest).linesFrom [] 0 := by
  have hprepend : ((Reading.cons text tag rest).prepend blanks).StandsAtStart :=
    ⟨by rw [List.all_append, hb, h.1]; rfl, (Place.standsAlone_blanks hb ..).2 h.2⟩
  rw [linesFrom_of_standsAtStart h hk]
  rw [Reading.prepend] at hprepend ⊢
  rw [linesFrom_of_standsAtStart hprepend hk, Place.trail_blanks hb, List.append_assoc,
    linesFrom_blanks hb (all_of_endsSolid ((hr.sealed hd).1.ends.append))]

/-! ## The tokens, with blanks in front -/

/-- Unless the first tag takes the blanks, they are a text in front of the tokens. -/
theorem tokenize_blanks (hne : blanks ≠ []) {d : Delimiters} (hd : d.Usable) {t : List Char}
    (h : ∀ r, Reads d r → r.source = t → ¬ r.StandsAtStart) :
    tokenize d (blanks ++ t) = (tokenize d t).map (joined [⟨.text, blanks, 1⟩]) := by
  cases ht : tokenize d t with
  | ok tokens =>
    obtain ⟨r, hr, rfl, rfl⟩ := (tokenize_eq_ok_iff hd).1 ht
    exact (tokenize_eq_ok_iff hd).2 ⟨r.prepend blanks, hr.prepend (clearOf_opening hb hd),
      Reading.source_append (.last blanks) r, linesFrom_prepend_blanks hb hne hr hd (h r hr rfl)⟩
  | error e =>
    rw [tokenize, map_eq_error_iff] at ht
    have hscan : scan d (blanks ++ t) = .error e :=
      tokens_prepend_eq_error hd (clearOf_opening hb hd) (by rw [lineFeeds_of_all hb]; exact ht)
    rw [tokenize, hscan]
    rfl

/-- If a tag that is no partial stands alone on the first line, the blanks make no difference to
    the tokens. -/
theorem tokenize_blanks_of_standsAtStart {d : Delimiters} (hd : d.Usable) {text : List Char}
    {tag : Tag} {rest : Reading} (hr : Reads d (.cons text tag rest))
    (h : (Reading.cons text tag rest).StandsAtStart) (hk : tag.kind ≠ .expansion) :
    tokenize d (blanks ++ (Reading.cons text tag rest).source) =
      tokenize d (Reading.cons text tag rest).source := by
  have hplain : tokenize d (Reading.cons text tag rest).source = .ok _ :=
    (tokenize_eq_ok_iff hd).2 ⟨_, hr, rfl, rfl⟩
  rw [hplain]
  exact (tokenize_eq_ok_iff hd).2 ⟨_, hr.prepend (clearOf_opening hb hd),
    Reading.source_append (.last blanks) _, linesFrom_prepend_of_standsAtStart hb hr hd h hk⟩

end

end Template

end Mustache
