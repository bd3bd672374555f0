import Mustache.Proofs.Indenters
import Mustache.Proofs.Reading.Lines

/-!
# The literal text of a template

The texts and indenters of a template are the characters of its source at certain
positions: those outside the *spans* of its tags (`Place.span`). The span of a tag is the
tag itself, and for a tag that stands alone the rest of its lines as well, save for the
blanks in front of a partial.

* `keep_source`: the tokens hold the source outside the spans, in order.
-/

namespace Mustache

namespace Text

/-- The positions of a text from `start` on, up to `stop`. -/
structure Span where
  start : Nat
  stop : Nat
deriving DecidableEq, Repr

/-- Whether a position is one of the span. -/
def Span.covers (s : Span) (i : Nat) : Bool :=
  s.start ≤ i && i < s.stop

/-- The characters of a text at the positions that are kept, its first one being `i`. -/
def keep (kept : Nat → Bool) (i : Nat) : List Char → List Char
  | [] => []
  | c :: rest => if kept i then c :: keep kept (i + 1) rest else keep kept (i + 1) rest

/-- The characters of a text outside some spans. -/
def outside (spans : List Span) (text : List Char) : List Char :=
  keep (fun i => !spans.any (·.covers i)) 0 text

theorem keep_append (kept : Nat → Bool) (i : Nat) (s t : List Char) :
    keep kept i (s ++ t) = keep kept i s ++ keep kept (i + s.length) t := by
  induction s generalizing i with
  | nil => rfl
  | cons c s ih =>
    have hi : i + (c :: s).length = i + 1 + s.length := by
      rw [List.length_cons]
      omega
    rw [List.cons_append, keep, keep, ih, hi]
    split <;> rfl

theorem keep_congr {kept kept' : Nat → Bool} {i : Nat} {s : List Char}
    (h : ∀ j, i ≤ j → j < i + s.length → kept j = kept' j) : keep kept i s = keep kept' i s := by
  induction s generalizing i with
  | nil => rfl
  | cons c s ih =>
    rw [keep, keep, h i (Nat.le_refl _) (by simp), ih fun j hj hlt => h j (by omega) (by simp; omega)]

/-- The positions of a stretch of a text hold this stretch. -/
theorem keep_stretch (i start stop : Nat) (s : List Char) :
    keep (fun j => i + start ≤ j && j < i + stop) i s = (s.take stop).drop start := by
  induction s generalizing i start stop with
  | nil => simp [keep]
  | cons c s ih =>
    have hrest : keep (fun j => i + start ≤ j && j < i + stop) (i + 1) s =
        (s.take (stop - 1)).drop (start - 1) := by
      rw [← ih (i + 1)]
      refine keep_congr fun j hj _ => ?_
      rw [Bool.eq_iff_iff]
      simp only [Bool.and_eq_true, decide_eq_true_eq]
      omega
    rw [keep, hrest]
    cases stop with
    | zero => simp
    | succ stop =>
      cases start with
      | zero => simp
      | succ start => simp

/-- The positions behind a text matter to it no more than those before. -/
theorem keep_eq_nil {kept : Nat → Bool} {i : Nat} {s : List Char}
    (h : ∀ j, i ≤ j → j < i + s.length → kept j = false) : keep kept i s = [] := by
  induction s generalizing i with
  | nil => rfl
  | cons c s ih =>
    rw [keep, h i (Nat.le_refl _) (by simp), ih fun j hj hlt => h j (by omega) (by simp; omega)]
    rfl

/-- Without spans nothing is left out. -/
theorem outside_nil (text : List Char) : outside [] text = text := by
  have hall : outside [] text = keep (fun j => 0 + 0 ≤ j && j < 0 + text.length) 0 text :=
    keep_congr fun j _ hj => by simpa using hj
  rw [hall, keep_stretch, List.take_length, List.drop_zero]

end Text

namespace Template

/-- What a tag takes out of the source: itself, and the rest of its lines if it stands alone,
    save for the blanks in front of a partial. -/
def Place.span (p : Place) : Text.Span where
  start := p.before.length - if p.tag.kind = .expansion then 0 else p.lead
  stop := p.before.length + p.tag.source.length + p.trail

/-- The tags of a template at their places, when the source `before` has been gone through. -/
def Reading.placesFrom (before : List Char) : Reading → List Place
  | .last _ => []
  | .cons text tag rest =>
    ⟨before ++ text, tag, rest.source⟩ :: rest.placesFrom (before ++ text ++ tag.source)

/-- The tags of a template at their places. -/
def Reading.places (r : Reading) : List Place := r.placesFrom []

/-- Whether a token stands for characters of the source that are copied to the output. -/
def Token.isLiteral (t : Token) : Bool :=
  t.kind = .text || t.kind = .indenter

/-- The text that the texts and indenters among some tokens make up. -/
def literal (tokens : List Token) : List Char :=
  (tokens.filter (·.isLiteral)).flatMap (·.value)

theorem literal_append (s t : List Token) : literal (s ++ t) = literal s ++ literal t := by
  simp [literal]

theorem literal_cutTokens (before : List Char) (start stop : Nat) (text : List Char) :
    literal (cutTokens before start stop text) = (text.take (text.length - stop)).drop start := by
  rw [cutTokens]
  by_cases h : (text.take (text.length - stop)).drop start = []
  · rw [h, textTokens_nil]
    rfl
  · rw [textTokens_of_ne_nil h]
    simp [literal, Token.isLiteral]

/-- The literal text of a tag is the indentation of a partial that stands alone. -/
theorem literal_tokens {p : Place} (h : p.tag.Sealed) :
    literal p.tokens =
      if p.StandsAlone ∧ p.tag.kind = .expansion then Text.lastLine p.before else [] := by
  have ht : p.tag.kind ≠ .text := h.ne_text
  have hi : p.tag.kind ≠ .indenter := h.ne_indenter
  rw [Place.tokens]
  by_cases hs : p.StandsAlone ∧ p.tag.kind = .expansion
  · by_cases hl : Text.lastLine p.before = []
    · simp [literal, Token.isLiteral, hs, hl]
    · simp [literal, Token.isLiteral, hs, hl]
  · rw [if_neg hs, if_neg fun h => hs ⟨h.1, h.2.1⟩]
    simp [literal, Token.isLiteral, ht, hi]

/-! ## What tags take from a text -/

/-- A place in the source between tags, or at its start. -/
def AtSeam (before : List Char) : Prop :=
  before = [] ∨ EndsSolid before

theorem atSeam_behind {tag : Tag} (h : tag.Sealed) (before : List Char) :
    AtSeam (before ++ tag.source) :=
  .inr h.ends.append

/-- What the tag at the end of the source `before` takes from what comes after it. -/
def Taken (before : List Char) (taken : Nat) (after : List Char) : Prop :=
  taken = 0 ∨ EndsSolid before ∧ (Text.firstLine after).all isInlineBlank = true ∧
    taken = (Text.firstLine after).length + if '\n' ∈ after then 1 else 0

theorem taken_trail {before : List Char} {p : Place} (h : p.tag.Sealed) :
    Taken (before ++ p.tag.source) p.trail p.after := by
  by_cases hs : p.StandsAlone
  · exact .inr ⟨h.ends.append, hs.2.2, if_pos hs⟩
  · exact .inl (if_neg hs)

/-- The blanks in front of a tag that stands alone are the end of a text, which holds a line
    feed unless it starts the template. -/
theorem lastLine_of_standsAlone {before text after : List Char} {tag : Tag} (h : AtSeam before)
    (hs : Place.StandsAlone ⟨before ++ text, tag, after⟩) :
    Text.lastLine (before ++ text) = Text.lastLine text ∧ (before = [] ∨ '\n' ∈ text) := by
  by_cases hm : '\n' ∈ text
  · exact ⟨Text.lastLine_append_of_mem hm, .inr hm⟩
  · rcases h with rfl | ⟨s, c, rfl, hc⟩
    · exact ⟨rfl, .inl rfl⟩
    · exact absurd hs.2.1 (ne_true_of_eq_false (all_lastLine_of_isSolid s hc hm))

theorem lead_le {before : List Char} (h : AtSeam before) (text after : List Char) (tag : Tag) :
    Place.lead ⟨before ++ text, tag, after⟩ ≤ (Text.lastLine text).length := by
  by_cases hs : Place.StandsAlone ⟨before ++ text, tag, after⟩
  · rw [Place.lead, if_pos hs]
    exact Nat.le_of_eq (congrArg List.length (lastLine_of_standsAlone h hs).1)
  · rw [Place.lead, if_neg hs]
    exact Nat.zero_le _

/-- Tags on either side of a text do not take the same characters of it. -/
theorem taken_add_lead_le {before text after : List Char} {tag : Tag} {taken : Nat}
    (hb : AtSeam before) (hs : tag.Sealed) (ht : Taken before taken (text ++ tag.source ++ after)) :
    taken + Place.lead ⟨before ++ text, tag, after⟩ ≤ text.length := by
  have hlead := lead_le hb text after tag
  have hlast := (Text.lastLine_suffix text).length_le
  rcases ht with rfl | ⟨_, hblank, rfl⟩
  · omega
  · obtain ⟨c, s, hc, hsolid⟩ := hs.starts
    rw [hc, List.append_assoc, List.cons_append] at hblank ⊢
    have hm : '\n' ∈ text := Decidable.byContradiction fun hm =>
      absurd hblank (ne_true_of_eq_false (all_firstLine_of_isSolid _ hsolid hm))
    have hlt := Text.length_firstLine_add_lastLine_lt hm
    rw [Text.firstLine_append_of_mem hm, if_pos (List.mem_append_left _ hm)]
    omega

/-- No tag takes anything in front of the text before it. -/
theorem length_le_span_start {d : Delimiters} {r : Reading} (hr : Reads d r) (hd : d.Usable)
    {before : List Char} (hb : AtSeam before) :
    ∀ p ∈ r.placesFrom before, before.length ≤ p.span.start := by
  induction r generalizing d before with
  | last text => exact fun _ h => absurd h List.not_mem_nil
  | cons text tag rest ih =>
    obtain ⟨hs, d', hd', hrest⟩ := hr.sealed hd
    have hlead := lead_le hb text rest.source tag
    have hlast := (Text.lastLine_suffix text).length_le
    have hlater := ih hrest hd' (atSeam_behind hs (before ++ text))
    intro p hp
    rcases List.mem_cons.1 hp with rfl | hp
    · simp only [Place.span, List.length_append]
      split <;> omega
    · have := hlater p hp
      simp only [List.length_append] at this
      omega

/-! ## The source outside the spans -/

/-- Whether the position `i` is kept of a template of which the source `before` has been gone
    through. -/
def Reading.keepsFrom (before : List Char) (taken : Nat) (r : Reading) (i : Nat) : Bool :=
  before.length + taken ≤ i && !(r.placesFrom before).any (·.span.covers i)

section

variable {d : Delimiters} {before text : List Char} {tag : Tag} {rest : Reading} {taken : Nat}

theorem keepsFrom_cons (i : Nat) :
    (Reading.cons text tag rest).keepsFrom before taken i =
      (before.length + taken ≤ i && !(Place.span ⟨before ++ text, tag, rest.source⟩).covers i &&
        !(rest.placesFrom (before ++ text ++ tag.source)).any (·.span.covers i)) := by
  simp only [Reading.keepsFrom, Reading.placesFrom, List.any_cons, Bool.not_or, Bool.and_assoc]

/-- The tags further on do not reach back to a tag. -/
theorem any_covers_eq_false (hs : tag.Sealed) (hr : Reads d rest) (hd : d.Usable)
    (before : List Char) {i : Nat} (hi : i < (before ++ tag.source).length) :
    (rest.placesFrom (before ++ tag.source)).any (·.span.covers i) = false := by
  rw [List.any_eq_false]
  intro p hp hcov
  have hle := length_le_span_start hr hd (atSeam_behind hs before) p hp
  simp only [Text.Span.covers, Bool.and_eq_true, decide_eq_true_eq] at hcov
  omega

/-- What is kept of a text in front of a tag. -/
theorem keep_text (hs : tag.Sealed) (hr : Reads d rest) (hd : d.Usable)
    (hfits : Place.lead ⟨before ++ text, tag, rest.source⟩ ≤ text.length) :
    let p : Place := ⟨before ++ text, tag, rest.source⟩
    Text.keep ((Reading.cons text tag rest).keepsFrom before taken) before.length text =
      (text.take (text.length - if tag.kind = .expansion then 0 else p.lead)).drop taken := by
  simp only
  rw [← Text.keep_stretch before.length]
  refine Text.keep_congr fun j hj hlt => ?_
  have hbehind : j < (before ++ text ++ tag.source).length := by
    simp only [List.length_append]
    omega
  have hany := any_covers_eq_false hs hr hd (before ++ text) hbehind
  rw [keepsFrom_cons, hany, Bool.eq_iff_iff]
  simp only [Place.span, Text.Span.covers, List.length_append, Bool.and_eq_true,
    decide_eq_true_eq, Bool.not_eq_true', Bool.and_eq_false_imp, decide_eq_false_iff_not,
    Bool.not_false, and_true]
  split <;> omega

/-- Nothing of a tag is kept. -/
theorem keep_tag :
    Text.keep ((Reading.cons text tag rest).keepsFrom before taken)
      (before.length + text.length) tag.source = [] := by
  refine Text.keep_eq_nil fun j hj hlt => ?_
  have hcov : (Place.span ⟨before ++ text, tag, rest.source⟩).covers j = true := by
    simp only [Place.span, Text.Span.covers, List.length_append, Bool.and_eq_true,
      decide_eq_true_eq]
    omega
  rw [keepsFrom_cons, hcov]
  simp

/-- Behind a tag, what it takes is not kept. -/
theorem keep_rest (htaken : taken ≤ text.length) :
    let p : Place := ⟨before ++ text, tag, rest.source⟩
    let passed := before ++ text ++ tag.source
    Text.keep ((Reading.cons text tag rest).keepsFrom before taken) passed.length rest.source =
      Text.keep (rest.keepsFrom passed p.trail) passed.length rest.source := by
  refine Text.keep_congr fun j hj hlt => ?_
  rw [keepsFrom_cons, Reading.keepsFrom]
  congr 1
  rw [Bool.eq_iff_iff]
  simp only [List.length_append] at hj
  simp only [Place.span, Text.Span.covers, List.length_append, Bool.and_eq_true,
    decide_eq_true_eq, Bool.not_eq_true', Bool.and_eq_false_imp, decide_eq_false_iff_not]
  omega

end

/-- The literal text of a tag and of the text in front of it is what is kept of them. -/
theorem literal_text_append {before text : List Char} {tag : Tag} {rest : Reading} {taken : Nat}
    (hb : AtSeam before) (hs : tag.Sealed)
    (hfits : taken + Place.lead ⟨before ++ text, tag, rest.source⟩ ≤ text.length) :
    let p : Place := ⟨before ++ text, tag, rest.source⟩
    literal (cutTokens before taken p.lead text ++ p.tokens) =
      (text.take (text.length - if tag.kind = .expansion then 0 else p.lead)).drop taken := by
  intro p
  rw [literal_append, literal_cutTokens, literal_tokens (p := p) hs]
  by_cases hk : tag.kind = .expansion
  · by_cases ha : p.StandsAlone
    · -- The blanks in front of a partial that stands alone are cut off and written again.
      obtain ⟨hline, _⟩ := lastLine_of_standsAlone hb ha
      have hlead : p.lead = (Text.lastLine text).length :=
        (if_pos ha).trans (congrArg List.length hline)
      have hdrop := List.suffix_iff_eq_drop.1 (Text.lastLine_suffix text)
      have hle : taken ≤ (text.take (text.length - p.lead)).length := by
        rw [List.length_take]
        change taken + p.lead ≤ text.length at hfits
        omega
      rw [if_pos ⟨ha, hk⟩, if_pos hk, hline, hdrop, ← hlead, ← List.drop_append_of_le_length hle,
        List.take_append_drop, Nat.sub_zero, List.take_length]
    · rw [if_neg fun h => ha h.1, if_pos hk, Place.lead, if_neg ha, List.append_nil]
  · rw [if_neg fun h => hk h.2, if_neg hk, List.append_nil]

/-- The tokens hold the source outside the spans of the tags, in order. -/
theorem keep_source {d : Delimiters} {r : Reading} (hr : Reads d r) (hd : d.Usable)
    {before : List Char} {taken : Nat} (hb : AtSeam before) (ht : Taken before taken r.source) :
    Text.keep (r.keepsFrom before taken) before.length r.source =
      literal (r.linesFrom before taken) := by
  induction r generalizing d before taken with
  | last text =>
    rw [Reading.linesFrom, literal_cutTokens, Reading.source, Nat.sub_zero,
      ← Text.keep_stretch before.length]
    refine Text.keep_congr fun j _ hj => ?_
    simp [Reading.keepsFrom, Reading.placesFrom, hj]
  | cons text tag rest ih =>
    obtain ⟨hs, d', hd', hrest⟩ := hr.sealed hd
    have hfits := taken_add_lead_le hb hs ht
    have hrec := ih hrest hd' (atSeam_behind hs (before ++ text))
      (taken_trail (p := ⟨before ++ text, tag, rest.source⟩) hs)
    rw [Reading.source, Text.keep_append, Text.keep_append, keep_text hs hrest hd' (by omega),
      keep_tag]
    have hlen : before.length + (text ++ tag.source).length =
        (before ++ text ++ tag.source).length := by
      simp only [List.length_append, Nat.add_assoc]
    rw [hlen, keep_rest (by omega), hrec, Reading.linesFrom, literal_append,
      literal_text_append hb hs hfits, List.append_nil]

/-- Apart from the texts, the tokens are those of the tags at their places. -/
theorem filter_linesFrom {d : Delimiters} {r : Reading} (hr : Reads d r) (hd : d.Usable)
    (before : List Char) (taken : Nat) :
    (r.linesFrom before taken).filter (·.kind ≠ .text) =
      (r.placesFrom before).flatMap Place.tokens := by
  have hcut : ∀ before start stop text,
      (cutTokens before start stop text).filter (·.kind ≠ .text) = [] := by
    intro before start stop text
    rw [cutTokens, Reading.textTokens]
    split <;> simp
  induction r generalizing d before taken with
  | last text => exact hcut _ _ _ _
  | cons text tag rest ih =>
    obtain ⟨hs, d', hd', hrest⟩ := hr.sealed hd
    have htokens : ∀ p : Place, p.tag = tag →
        p.tokens.filter (·.kind ≠ .text) = p.tokens := by
      rintro p rfl
      simp only [Place.tokens]
      split <;> simp [hs.ne_text]
    rw [Reading.linesFrom, List.filter_append, List.filter_append, hcut, htokens _ rfl,
      ih hrest hd', Reading.placesFrom, List.flatMap_cons, List.nil_append]

/-- The texts and indenters of a template make up its source outside the spans of the tags,
    so that all of a template without tags is text. The other tokens are the tags at their
    places, in order, with the indentation of a partial that stands alone right in front of
    it. -/
theorem tokenize_keeps_text {d : Delimiters} {template : List Char} {tokens : List Token}
    (hd : d.Usable) (h : tokenize d template = .ok tokens) :
    (∃ r, Reads d r ∧ r.source = template ∧
      literal tokens = Text.outside (r.places.map (·.span)) template ∧
      tokens.filter (·.kind ≠ .text) = r.places.flatMap Place.tokens ∧
      IndentersLead tokens) ∧
    (¬ d.opening <:+: template → literal tokens = template) := by
  have hlead := indentersLead_of_tokenize h
  obtain ⟨r, hr, rfl, rfl⟩ := (tokenize_eq_ok_iff hd).1 h
  have hkept : literal (r.linesFrom [] 0) = Text.outside (r.places.map (·.span)) r.source := by
    rw [← keep_source hr hd (.inl rfl) (.inl rfl), Text.outside]
    refine Text.keep_congr fun j _ _ => ?_
    simp [Reading.keepsFrom, Reading.places, List.any_map, Function.comp_def]
  refine ⟨⟨r, hr, rfl, hkept, filter_linesFrom hr hd [] 0, hlead⟩, fun ho => ?_⟩
  cases hr with
  | last _ => exact hkept.trans (Text.outside_nil _)
  | cons opens shaped closes means reads =>
    exact absurd ⟨_, _, (Reading.source_cons ..).symm⟩ ho

/-- A partial keeps the blanks in front of it, a section does not, and both take the end of
    their line. -/
theorem tokenize_keeps_text_indented_partial :
    let d : Delimiters := ⟨"<%".toList, "%>".toList⟩
    let template := "a\n \t<%> p %>\r\n  <%#s%>\nb<%/s%> \n".toList
    let tokens : List Token := [⟨.text, "a\n".toList, 1⟩, ⟨.indenter, " \t".toList, 2⟩,
      ⟨.expansion, "p".toList, 2⟩, ⟨.opener, "s".toList, 3⟩, ⟨.text, "b".toList, 4⟩,
      ⟨.ender, "s".toList, 4⟩, ⟨.text, " \n".toList, 4⟩]
    d.Usable ∧ tokenize d template = .ok tokens ∧ literal tokens = "a\n \tb \n".toList ∧
    ∃ r, Reads d r ∧ r.source = template ∧
      literal tokens = Text.outside (r.places.map (·.span)) template ∧
      tokens.filter (·.kind ≠ .text) = r.places.flatMap Place.tokens ∧ IndentersLead tokens := by
  have hd : Delimiters.Usable ⟨"<%".toList, "%>".toList⟩ := by decide
  have h : tokenize ⟨"<%".toList, "%>".toList⟩
      "a\n \t<%> p %>\r\n  <%#s%>\nb<%/s%> \n".toList =
        .ok [⟨.text, "a\n".toList, 1⟩, ⟨.indenter, " \t".toList, 2⟩,
          ⟨.expansion, "p".toList, 2⟩, ⟨.opener, "s".toList, 3⟩, ⟨.text, "b".toList, 4⟩,
          ⟨.ender, "s".toList, 4⟩, ⟨.text, " \n".toList, 4⟩] := by cbv
  exact ⟨hd, h, by decide, (tokenize_keeps_text hd h).1⟩

end Template

end Mustache
