import Mustache.Proofs.Reading.Scan
import Mustache.Template.Standalone

/-!
# Lines of the source

Whether a tag stands alone on its lines is a matter of the source around it: nothing but
blanks lies between the tag and the ends of its lines (`Place.StandsAlone`). The rule on
lines is applied to tokens, though, and looks at the texts next to a tag only. These tell
the same, since a tag never ends, or starts, in a blank or a line feed:

* `standing?_eq`: what a tag takes from its neighbours can be seen in the source;
* `settle_tokens`: so can the tokens of a template (`Reading.linesFrom`).
-/

namespace Mustache

namespace Text

/-- What follows the last line feed of a text. -/
def lastLine (s : List Char) : List Char :=
  (s.reverse.takeWhile (· != '\n')).reverse

/-- What precedes the first line feed of a text. -/
def firstLine (s : List Char) : List Char :=
  s.takeWhile (· != '\n')

theorem firstLine_append_of_mem {s t : List Char} (h : '\n' ∈ s) :
    firstLine (s ++ t) = firstLine s := by
  rw [firstLine, List.takeWhile_append, if_neg, firstLine]
  intro hl
  have hs : s.takeWhile (· != '\n') = s := (List.takeWhile_prefix _).eq_of_length hl
  have hall : s.all (· != '\n') = true := hs ▸ List.all_takeWhile
  exact absurd rfl (bne_iff_ne.1 (List.all_eq_true.1 hall '\n' h))

theorem firstLine_append_of_not_mem {s t : List Char} (h : '\n' ∉ s) :
    firstLine (s ++ t) = s ++ firstLine t :=
  List.takeWhile_append_of_pos fun _ hc => bne_iff_ne.2 fun he => h (he ▸ hc)

theorem lastLine_append_of_mem {s t : List Char} (h : '\n' ∈ t) :
    lastLine (s ++ t) = lastLine t := by
  have hr := firstLine_append_of_mem (t := s.reverse) (List.mem_reverse.2 h)
  rw [lastLine, List.reverse_append]
  exact congrArg List.reverse hr

theorem lastLine_append_of_not_mem {s t : List Char} (h : '\n' ∉ t) :
    lastLine (s ++ t) = lastLine s ++ t := by
  have hr := firstLine_append_of_not_mem (t := s.reverse) (mt List.mem_reverse.1 h)
  rw [lastLine, List.reverse_append]
  exact (congrArg List.reverse hr).trans (by rw [List.reverse_append, List.reverse_reverse]; rfl)

theorem lastLine_suffix (s : List Char) : lastLine s <:+ s := by
  have hp : s.reverse.takeWhile (· != '\n') <+: s.reverse := List.takeWhile_prefix _
  rw [lastLine, ← List.reverse_prefix, List.reverse_reverse]
  exact hp

/-- The lines at either end of a text with a line feed have the line feed between them. -/
theorem length_firstLine_add_lastLine_lt {s : List Char} (h : '\n' ∈ s) :
    (firstLine s).length + (lastLine s).length < s.length := by
  obtain ⟨s, t, rfl⟩ := List.append_of_mem h
  have hs : (firstLine (s ++ '\n' :: t)).length ≤ s.length := by
    by_cases hm : '\n' ∈ s
    · rw [firstLine_append_of_mem hm]
      exact (List.takeWhile_sublist _).length_le
    · rw [firstLine_append_of_not_mem hm, List.length_append]
      exact Nat.le_refl _
  have ht : (lastLine (s ++ '\n' :: t)).length ≤ t.length := by
    rw [← List.singleton_append, ← List.append_assoc]
    by_cases hm : '\n' ∈ t
    · rw [lastLine_append_of_mem hm, lastLine, List.length_reverse]
      exact Nat.le_trans (List.takeWhile_sublist _).length_le (Nat.le_of_eq List.length_reverse)
    · rw [lastLine_append_of_not_mem hm, lastLine_append_of_mem List.mem_cons_self,
        List.length_append]
      exact Nat.le_of_eq (Nat.zero_add _)
  rw [List.length_append, List.length_cons]
  omega

end Text

namespace Template

/-- A tag at its place in a template. -/
structure Place where
  /-- The source in front of the tag. -/
  before : List Char
  tag : Tag
  /-- The source behind the tag. -/
  after : List Char

namespace Place

/-- The line the tag starts on. -/
def line (p : Place) : Nat := 1 + Text.lineFeeds p.before

/-- Nothing but blanks shares the lines of the tag, and it is no variable. -/
def StandsAlone (p : Place) : Prop :=
  p.tag.kind.mayStandAlone = true ∧ (Text.lastLine p.before).all isInlineBlank = true ∧
    (Text.firstLine p.after).all isInlineBlank = true

instance (p : Place) : Decidable p.StandsAlone :=
  inferInstanceAs (Decidable (_ ∧ _ ∧ _))

/-- The number of blanks in front of a tag that stands alone. -/
def lead (p : Place) : Nat :=
  if p.StandsAlone then (Text.lastLine p.before).length else 0

/-- The number of characters behind a tag that stands alone, up to the end of its line and
    with the line feed that ends it. -/
def trail (p : Place) : Nat :=
  if p.StandsAlone then
    (Text.firstLine p.after).length + if '\n' ∈ p.after then 1 else 0
  else 0

/-- What the tag takes from its neighbours, if it stands alone. -/
def standing? (p : Place) : Option Standing :=
  if p.StandsAlone then some ⟨Text.lastLine p.before, p.trail⟩ else none

theorem getD_indent (p : Place) : (p.standing?.map (·.indent.length)).getD 0 = p.lead := by
  rw [standing?, lead]
  split <;> rfl

theorem getD_ending (p : Place) : (p.standing?.map (·.ending)).getD 0 = p.trail := by
  by_cases h : p.StandsAlone
  · simp [standing?, h]
  · simp [standing?, trail, h]

/-- The token of the tag, after an indenter for the blanks in front of a partial that stands
    alone. -/
def tokens (p : Place) : List Token :=
  let indent := Text.lastLine p.before
  let token : Token := ⟨p.tag.kind, p.tag.value, p.line⟩
  if p.StandsAlone ∧ p.tag.kind = .expansion ∧ indent ≠ [] then
    [⟨.indenter, indent, p.line⟩, token]
  else [token]

end Place

/-! ## The source next to a tag -/

/-- A character that cannot be in a blank ending of a line, nor end it. -/
def isSolid (c : Char) : Bool :=
  !isInlineBlank c && c != '\n'

theorem isSolid_of_not_isReserved {c : Char} (h : Delimiters.isReserved c = false) :
    isSolid c = true := by
  rw [isSolid, Bool.and_eq_true, Bool.not_eq_true', bne_iff_ne]
  constructor
  · cases hb : isInlineBlank c with
    | false => rfl
    | true =>
      simp only [isInlineBlank, Bool.or_eq_true, beq_iff_eq] at hb
      rcases hb with (rfl | rfl) | rfl <;> exact absurd h (by decide)
  · rintro rfl
    exact absurd h (by decide)

/-- The line after a tag is not blank before its first line feed. -/
theorem all_lastLine_of_isSolid (before : List Char) {text : List Char} {c : Char}
    (hc : isSolid c = true) (h : '\n' ∉ text) :
    (Text.lastLine (before ++ [c] ++ text)).all isInlineBlank = false := by
  rw [isSolid, Bool.and_eq_true, Bool.not_eq_true', bne_iff_ne] at hc
  rw [Text.lastLine_append_of_not_mem h, Text.lastLine_append_of_not_mem (by simpa using hc.2.symm)]
  simp [hc.1]

/-- The line before a tag is not blank after its last line feed. -/
theorem all_firstLine_of_isSolid {text : List Char} (after : List Char) {c : Char}
    (hc : isSolid c = true) (h : '\n' ∉ text) :
    (Text.firstLine (text ++ c :: after)).all isInlineBlank = false := by
  rw [isSolid, Bool.and_eq_true, Bool.not_eq_true'] at hc
  rw [Text.firstLine_append_of_not_mem h, Text.firstLine, List.takeWhile_cons, if_pos hc.2]
  simp [hc.1]

/-- The last character of a source can neither be blank nor end a line. -/
def EndsSolid (source : List Char) : Prop :=
  ∃ s c, source = s ++ [c] ∧ isSolid c = true

theorem EndsSolid.append {s t : List Char} (h : EndsSolid t) : EndsSolid (s ++ t) := by
  obtain ⟨t, c, rfl, hc⟩ := h
  exact ⟨s ++ t, c, (List.append_assoc ..).symm, hc⟩

/-- What can be seen of a tag from outside: it is no text, and neither starts nor ends in a
    blank or a line feed. -/
structure Tag.Sealed (tag : Tag) : Prop where
  ne_text : tag.kind ≠ .text
  ne_indenter : tag.kind ≠ .indenter
  starts : ∃ c s, tag.source = c :: s ∧ isSolid c = true
  ends : EndsSolid tag.source

/-- A word that is not empty ends in its last character. -/
theorem closer_ends {closing : List Char} (shape : Shape) (h : closing ≠ []) :
    ∃ s, shape.closer closing = s ++ [closing.getLast h] := by
  have hl := List.dropLast_concat_getLast h
  cases shape with
  | triple => exact ⟨'}' :: closing.dropLast, by rw [Shape.closer, List.cons_append, hl]⟩
  | delimiterChange => exact ⟨'=' :: closing.dropLast, by rw [Shape.closer, List.cons_append, hl]⟩
  | plain => exact ⟨closing.dropLast, hl.symm⟩

/-- Delimiters seal the tags of a template. -/
theorem Reads.sealed {d : Delimiters} {text : List Char} {tag : Tag} {rest : Reading}
    (h : Reads d (.cons text tag rest)) (hd : d.Usable) :
    tag.Sealed ∧ ∃ d', d'.Usable ∧ Reads d' rest := by
  cases h with
  | @cons _ _ _ content _ shape _ _ opens shaped closes means reads =>
    refine ⟨⟨means.isTag.1, means.isTag.2, ?_, ?_⟩, _, means.usable hd, reads⟩
    · obtain ⟨c, s, ho⟩ := List.exists_cons_of_ne_nil hd.opening_ne_nil
      refine ⟨c, _, congrArg (· ++ _) ho, isSolid_of_not_isReserved ?_⟩
      exact hd.isReserved_opening c (ho ▸ List.mem_cons_self)
    · obtain ⟨s, hs⟩ := closer_ends shape hd.closing_ne_nil
      refine ⟨d.opening ++ (shape.lead ++ content ++ s), _, ?_, isSolid_of_not_isReserved
        (hd.isReserved_closing _ (List.getLast_mem hd.closing_ne_nil))⟩
      simp only [Shape.enclose, hs, List.append_assoc]

/-! ## The tokens next to a tag -/

/-- The tokens `passed`, the nearest first, when all of the source `before` has been gone
    through: none at the start of the template, and otherwise a tag and those before it. -/
def Passed (before : List Char) : List Token → Prop
  | [] => before = []
  | tag :: _ => tag.kind ≠ .text ∧ EndsSolid before

theorem textTokens_nil (line : Nat) : Reading.textTokens line [] = [] := rfl

theorem textTokens_of_ne_nil {text : List Char} (h : text ≠ []) (line : Nat) :
    Reading.textTokens line text = [⟨.text, text, line⟩] := by
  rw [Reading.textTokens, if_neg (by simpa using h)]

/-- The blanks in front of a tag are those on its line in the source. -/
theorem indentBefore_eq {before : List Char} {passed : List Token} (h : Passed before passed)
    (line : Nat) (text : List Char) :
    indentBefore (Reading.textTokens line text ++ passed) =
      let indent := Text.lastLine (before ++ text)
      if indent.all isInlineBlank then some indent else none := by
  by_cases ht : text = []
  · subst ht
    -- The tag is the first of the template, or right behind another one.
    cases passed with
    | nil =>
      obtain rfl : before = [] := h
      rfl
    | cons tag earlier =>
      obtain ⟨hk, s, c, rfl, hc⟩ := h
      have hs := all_lastLine_of_isSolid s hc List.not_mem_nil
      simp only [textTokens_nil, List.nil_append, indentBefore]
      rw [if_neg fun hk' => hk hk'.1, if_neg (ne_true_of_eq_false hs)]
  · rw [textTokens_of_ne_nil ht, List.singleton_append]
    have hl : (text.reverse.takeWhile (· != '\n')).reverse = Text.lastLine text := rfl
    by_cases hm : '\n' ∈ text
    · simp [indentBefore, hl, hm, Text.lastLine_append_of_mem hm]
    · -- The line starts in front of the text: with the template, or with a tag on it.
      cases passed with
      | nil =>
        obtain rfl : before = [] := h
        simp [indentBefore, hl]
      | cons tag earlier =>
        obtain ⟨_, s, c, rfl, hc⟩ := h
        have hs := all_lastLine_of_isSolid s hc hm
        simp only [indentBefore]
        rw [if_neg (by simp [hm]), if_neg (ne_true_of_eq_false hs)]

/-- The end of the line of a tag is the one in the source. -/
theorem endingAfter_eq {d : Delimiters} {r : Reading} (h : Reads d r) (hd : d.Usable)
    (line : Nat) :
    endingAfter (r.tokens line) =
      let ending := Text.firstLine r.source
      if ending.all isInlineBlank then
        some (ending.length + if '\n' ∈ r.source then 1 else 0)
      else none := by
  cases r with
  | last text =>
    rw [Reading.tokens, Reading.source]
    by_cases ht : text = []
    · subst ht
      rfl
    · rw [textTokens_of_ne_nil ht]
      by_cases hm : '\n' ∈ text <;> simp [endingAfter, hm, Text.firstLine]
  | cons text tag rest =>
    obtain ⟨hs, _⟩ := h.sealed hd
    obtain ⟨c, s, hc, hsolid⟩ := hs.starts
    rw [Reading.tokens, Reading.source, hc, List.append_assoc, List.cons_append]
    -- Unless the text ends the line, the next tag is on it.
    by_cases hm : '\n' ∈ text
    · rw [textTokens_of_ne_nil (List.ne_nil_of_mem hm), Text.firstLine_append_of_mem hm]
      simp [endingAfter, hm, Text.firstLine]
    · have hf := all_firstLine_of_isSolid (s ++ rest.source) hsolid hm
      simp only
      rw [if_neg (ne_true_of_eq_false hf)]
      by_cases ht : text = []
      · subst ht
        simp [textTokens_nil, endingAfter, hs.ne_text]
      · rw [textTokens_of_ne_nil ht]
        simp [endingAfter, hm]

/-! ## The rule on lines, read off the source -/

/-- What is left of a text behind the source `before`, when it loses some characters at
    either end. -/
def cutTokens (before : List Char) (start stop : Nat) (text : List Char) : List Token :=
  Reading.textTokens (1 + Text.lineFeeds (before ++ text.take start))
    ((text.take (text.length - stop)).drop start)

/-- The tokens of a template of which the source `before` has been gone through, when the
    tag that this ends in takes some more characters. -/
def Reading.linesFrom (before : List Char) (taken : Nat) : Reading → List Token
  | .last text => cutTokens before taken 0 text
  | .cons text tag rest =>
    let place : Place := ⟨before ++ text, tag, rest.source⟩
    cutTokens before taken place.lead text ++ place.tokens ++
      rest.linesFrom (before ++ text ++ tag.source) place.trail

/-- What a tag takes from its neighbours can be seen in the source. -/
theorem standing?_eq {d : Delimiters} {before : List Char} {passed : List Token}
    {rest : Reading} (h : Passed before passed) (hr : Reads d rest) (hd : d.Usable)
    (text : List Char) (tag : Tag) (line tagLine restLine : Nat) :
    standing? (Reading.textTokens line text ++ passed) ⟨tag.kind, tag.value, tagLine⟩
        (rest.tokens restLine) = Place.standing? ⟨before ++ text, tag, rest.source⟩ := by
  simp only [standing?, indentBefore_eq h, endingAfter_eq hr hd, Place.standing?, Place.trail,
    Place.StandsAlone]
  by_cases hk : tag.kind.mayStandAlone = true
  · by_cases hb : (Text.lastLine (before ++ text)).all isInlineBlank = true
    · by_cases ha : (Text.firstLine rest.source).all isInlineBlank = true
      · simp [hk, hb, ha]
      · simp [hk, hb, ha]
    · simp [hk, hb]
  · simp [hk]

/-- What the last of the tokens `passed` takes from those after it. -/
def takenBy (passed after : List Token) : Nat :=
  match passed with
  | [] => 0
  | tag :: earlier => ((standing? earlier tag after).map (·.ending)).getD 0

theorem cut_eq (text : Token) (c : Cut) :
    text.cut c = { text with
      value := (text.value.take (text.value.length - c.stop)).drop c.start
      line := text.line + Text.lineFeeds (text.value.take c.start) } := by
  have hv : (text.value.take (max (text.value.length - c.stop) (min c.start text.value.length))).drop
      (min c.start text.value.length) =
        (text.value.take (text.value.length - c.stop)).drop c.start := by
    apply List.ext_getElem?
    intro i
    grind
  have ht : text.value.take (min c.start text.value.length) = text.value.take c.start := by
    rw [← List.take_take, List.take_length]
  simp only [Token.cut, hv, ht]

/-- A text that is cut in the source is cut as a token. -/
theorem settled_text (before text : List Char) (passed after : List Token) :
    let token : Token := ⟨.text, text, 1 + Text.lineFeeds before⟩
    settled passed token after =
      cutTokens before (takenBy passed (token :: after)) (cutOf passed token after).stop text := by
  simp only [settled, cut_eq, cutTokens, Reading.textTokens, Text.lineFeeds_append, Nat.add_assoc]
  rfl

/-- A tag gets the indenter that its place in the source asks for. -/
theorem settled_tag {passed after : List Token} {p : Place} (hs : p.tag.Sealed)
    (h : standing? passed ⟨p.tag.kind, p.tag.value, p.line⟩ after = p.standing?) :
    settled passed ⟨p.tag.kind, p.tag.value, p.line⟩ after = p.tokens := by
  rw [settled, Place.tokens, h, Place.standing?]
  cases hk : p.tag.kind with
  | text => exact absurd hk hs.ne_text
  | expansion =>
    by_cases ha : p.StandsAlone
    · cases hi : Text.lastLine p.before <;> simp [ha]
    · simp [ha]
  | comment => simp
  | escaped => simp
  | unescaped => simp
  | opener => simp
  | inverse => simp
  | ender => simp
  | indenter => simp

/-- A text, unless it is empty, and the tag after it are settled one after the other. -/
theorem settle_textTokens_cons (before text : List Char) (passed after : List Token)
    (token : Token) :
    let line := 1 + Text.lineFeeds before
    settle passed (Reading.textTokens line text ++ token :: after) =
      cutTokens before (takenBy passed (Reading.textTokens line text ++ token :: after))
        (((standing? (Reading.textTokens line text ++ passed) token after).map
          (·.indent.length)).getD 0) text ++
      settled (Reading.textTokens line text ++ passed) token after ++
      settle (token :: (Reading.textTokens line text ++ passed)) after := by
  by_cases ht : text = []
  · subst ht
    simp [textTokens_nil, settle, cutTokens]
  · simp only [textTokens_of_ne_nil ht, List.singleton_append, settle, settled_text,
      List.append_assoc]
    rfl

/-- The rule on lines can be read off the source. -/
theorem settle_tokens {d : Delimiters} {r : Reading} (hr : Reads d r) (hd : d.Usable)
    {before : List Char} {passed : List Token} (h : Passed before passed) :
    let tokens := r.tokens (1 + Text.lineFeeds before)
    settle passed tokens = r.linesFrom before (takenBy passed tokens) := by
  induction r generalizing d before passed with
  | last text =>
    by_cases ht : text = []
    · subst ht
      simp [Reading.tokens, textTokens_nil, settle, Reading.linesFrom, cutTokens]
    · simp only [Reading.tokens, textTokens_of_ne_nil ht, settle, settled_text, List.append_nil]
      rfl
  | cons text tag rest ih =>
    obtain ⟨hs, d', hd', hrest⟩ := hr.sealed hd
    have hline : 1 + Text.lineFeeds before + Text.lineFeeds text =
        Place.line ⟨before ++ text, tag, rest.source⟩ := by
      rw [Place.line, Text.lineFeeds_append, Nat.add_assoc]
    have hrestLine : Place.line ⟨before ++ text, tag, rest.source⟩ + Text.lineFeeds tag.source =
        1 + Text.lineFeeds (before ++ text ++ tag.source) := by
      rw [Place.line, Text.lineFeeds_append (before ++ text), Nat.add_assoc]
    have hstanding := standing?_eq h hrest hd' text tag
    -- When the rest is settled, the tag is what has been passed last.
    have hpassed : ∀ line tagLine, Passed (before ++ text ++ tag.source)
        (⟨tag.kind, tag.value, tagLine⟩ :: (Reading.textTokens line text ++ passed)) :=
      fun _ _ => ⟨hs.ne_text, hs.ends.append⟩
    simp only [Reading.tokens, Reading.linesFrom, hline, hrestLine, settle_textTokens_cons,
      hstanding, Place.getD_indent, ih hrest hd' (hpassed _ _), takenBy, Place.getD_ending]
    rw [settled_tag (p := ⟨before ++ text, tag, rest.source⟩) hs (hstanding _ _ _)]

/-- The tokens of a template are those of its proper reading, with the rule on lines read off
    the source. -/
theorem tokenize_eq_ok_iff {d : Delimiters} (hd : d.Usable) {template : List Char}
    {tokens : List Token} :
    tokenize d template = .ok tokens ↔
      ∃ r, Reads d r ∧ r.source = template ∧ r.linesFrom [] 0 = tokens := by
  have hsettle : ∀ r, Reads d r → settle [] (r.tokens 1) = r.linesFrom [] 0 := fun r hr =>
    settle_tokens hr hd (show Passed [] [] from rfl)
  rw [tokenize, map_eq_ok_iff]
  constructor
  · rintro ⟨raw, hraw, rfl⟩
    obtain ⟨r, hr, hs, rfl⟩ := (scan_eq_ok_iff hd).1 hraw
    exact ⟨r, hr, hs, (hsettle r hr).symm⟩
  · rintro ⟨r, hr, hs, rfl⟩
    exact ⟨_, (scan_eq_ok_iff hd).2 ⟨r, hr, hs, rfl⟩, hsettle r hr⟩

theorem tokenize_eq_error_iff {d : Delimiters} {template : List Char} {e : TemplateError} :
    tokenize d template = .error e ↔ scan d template = .error e :=
  map_eq_error_iff

end Template

end Mustache
