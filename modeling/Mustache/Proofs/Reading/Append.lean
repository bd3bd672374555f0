import Mustache.Proofs.Reading.Literal

/-!
# Templates one after the other

A template can be cut in two wherever a line ends (`Text.EndsLine`): no delimiter holds a line
feed, so no tag is cut, and what shares a line with a tag stays on its side of the cut. What
comes before the cut does three things to what comes after it: it may change the delimiters
(`delimitersAfter`), it moves lines down (`Token.shift`), and a text that it ends with goes on
in a text that follows (`joined`).

* `Reads.append`: readings of the two pieces make up a reading of the whole;
* `linesFrom_append`: so do the tokens, with the rule on lines applied;
* `tokenize_append`: a template that is cut at the end of a line.
-/

namespace Mustache

namespace Text

/-- The text does not stop within a line: its last character, if it has any, is a line feed. -/
def EndsLine (s : List Char) : Prop := ∀ c ∈ s.getLast?, c = '\n'

instance (s : List Char) : Decidable (EndsLine s) :=
  inferInstanceAs (Decidable (∀ c ∈ s.getLast?, c = '\n'))

theorem endsLine_append_iff {s t : List Char} (ht : t ≠ []) :
    EndsLine (s ++ t) ↔ EndsLine t := by
  rw [EndsLine, EndsLine, List.getLast?_append_of_ne_nil _ ht]

theorem EndsLine.append {s t : List Char} (hs : EndsLine s) (ht : EndsLine t) :
    EndsLine (s ++ t) := by
  by_cases h : t = []
  · rwa [h, List.append_nil]
  · exact (endsLine_append_iff h).2 ht

/-- A line feed ends a text that ends a line. -/
theorem EndsLine.exists_eq {s : List Char} (h : EndsLine s) (hne : s ≠ []) :
    ∃ t, s = t ++ ['\n'] := by
  refine ⟨s.dropLast, ?_⟩
  rw [← h _ (List.getLast_mem_getLast? hne), List.dropLast_concat_getLast]

theorem EndsLine.mem {s : List Char} (h : EndsLine s) (hne : s ≠ []) : '\n' ∈ s := by
  obtain ⟨t, rfl⟩ := h.exists_eq hne
  simp

/-- What follows a text that ends a line starts a line of its own. -/
theorem lastLine_append_of_endsLine {s : List Char} (h : EndsLine s) (t : List Char) :
    lastLine (s ++ t) = lastLine t := by
  by_cases hm : '\n' ∈ t
  · exact lastLine_append_of_mem hm
  · rw [lastLine_append_of_not_mem hm]
    by_cases hs : s = []
    · subst hs
      exact (lastLine_append_of_not_mem (s := []) hm).symm
    · obtain ⟨s, rfl⟩ := h.exists_eq hs
      have hfeed : lastLine (s ++ ['\n']) = [] := by
        simp [lastLine]
      rw [hfeed]
      exact (lastLine_append_of_not_mem (s := []) hm).symm

section

variable {word s t b a : List Char}

/-- Whatever follows the text, the word occurs behind it only. -/
def ClearOf (word s : List Char) : Prop :=
  ∀ u v t, u ++ word ++ v = s ++ t → ∃ u', u = s ++ u' ∧ u' ++ word ++ v = t

/-- A word without a line feed does not go across the end of a line. -/
theorem EndsLine.clearOf (hl : EndsLine s) (hw : '\n' ∉ word) (hs : ¬ word <:+: s) :
    ClearOf word s := by
  intro u v t he
  rw [List.append_assoc] at he
  rcases List.append_eq_append_iff.1 he with ⟨w, rfl, hv⟩ | ⟨u', rfl, ht⟩
  · rcases List.append_eq_append_iff.1 hv with ⟨v', rfl, -⟩ | ⟨x, rfl, rfl⟩
    · exact absurd ⟨u, v', List.append_assoc ..⟩ hs
    · -- The word would go across the line feed.
      by_cases hne : w = []
      · subst hne
        exact ⟨[], by simp, by simp⟩
      · exact absurd (List.mem_append_left x (((endsLine_append_iff hne).1 hl).mem hne)) hw
  · exact ⟨u', rfl, by rw [ht, List.append_assoc]⟩

theorem ClearOf.not_infix_append (hs : ClearOf word s) (ht : ¬ word <:+: t) :
    ¬ word <:+: s ++ t := by
  rintro ⟨u, v, he⟩
  obtain ⟨u', -, he'⟩ := hs u v t he
  exact ht ⟨u', v, he'⟩

/-- A text that is clear of the word may be put in front of its first occurrence. -/
theorem IsFirst.append_left (h : IsFirst word b a) (hs : ClearOf word s) :
    IsFirst word (s ++ b) a := by
  intro u v he
  rw [List.append_assoc s, List.append_assoc s] at he
  obtain ⟨u', rfl, he'⟩ := hs u v _ he
  have := h u' v he'
  simp only [List.length_append]
  omega

/-- Whatever follows, the first occurrence of a word stays the first one. -/
theorem IsFirst.append_right (h : IsFirst word b a) (t : List Char) :
    IsFirst word b (a ++ t) := by
  intro u v he
  by_contra hlt
  -- An earlier occurrence would end before the text that follows starts.
  have hlen : (u ++ word).length ≤ (b ++ word ++ a).length := by
    simp only [List.length_append]
    omega
  rw [← List.append_assoc (b ++ word)] at he
  obtain ⟨v', hv⟩ := List.prefix_of_prefix_length_le ⟨v, he⟩ ⟨t, rfl⟩ hlen
  exact hlt (h u v' hv)

end

end Text

/-- The error some lines further down. -/
def TemplateError.shift (n : Nat) : TemplateError → TemplateError
  | .malformed cause line => .malformed cause (line + n)
  | .unclosedSection name line => .unclosedSection name (line + n)
  | .unexpectedEnder name line => .unexpectedEnder name (line + n)
  | .mismatchedEnder expected found line => .mismatchedEnder expected found (line + n)
  | .partialTooDeep name depth => .partialTooDeep name depth

namespace Template

/-- The token some lines further down. -/
def Token.shift (n : Nat) (t : Token) : Token := { t with line := t.line + n }

/-- Tokens followed by others, where a text at the end of the former goes on in one at the
    start of the latter. -/
def joined : List Token → List Token → List Token
  | [], later => later
  | [a], b :: later =>
    if a.kind = .text ∧ b.kind = .text then { a with value := a.value ++ b.value } :: later
    else a :: b :: later
  | a :: earlier, later => a :: joined earlier later

/-- The delimiters in force where the scanner stops. -/
def Scanner.lastDelimiters (s : Scanner) : Delimiters :=
  match _ : s.next with
  | none => s.delimiters
  | some (.error _, s') => s'.delimiters
  | some (.ok _, s') => s'.lastDelimiters
termination_by s.rest.length
decreasing_by exact length_next_lt ‹_›

theorem Scanner.lastDelimiters_eq (s : Scanner) :
    s.lastDelimiters = match s.next with
      | none => s.delimiters
      | some (.error _, s') => s'.delimiters
      | some (.ok _, s') => s'.lastDelimiters := by
  rw [lastDelimiters]
  split <;> next h => rw [h]

/-- The delimiters in force at the end of a template that starts with the delimiters `d`. -/
def delimitersAfter (d : Delimiters) (template : List Char) : Delimiters :=
  (Scanner.start d template).lastDelimiters

/-! ## Joining tokens -/

@[simp] theorem joined_nil_left (later : List Token) : joined [] later = later := rfl

theorem joined_cons_of_ne_nil (a : Token) {earlier : List Token} (h : earlier ≠ [])
    (later : List Token) : joined (a :: earlier) later = a :: joined earlier later := by
  cases earlier with
  | nil => exact absurd rfl h
  | cons b earlier => rw [joined]; simp

theorem joined_singleton_of_ne {a : Token} (h : a.kind ≠ .text) (later : List Token) :
    joined [a] later = a :: later := by
  cases later with
  | nil => rfl
  | cons b later => simp [joined, h]

/-- Only the last of the former tokens may go on in the latter ones, and a tag does not. -/
theorem joined_append_cons {a : Token} (h : a.kind ≠ .text) (before earlier later : List Token) :
    joined (before ++ a :: earlier) later = before ++ a :: joined earlier later := by
  induction before with
  | nil =>
    by_cases he : earlier = []
    · subst he
      exact joined_singleton_of_ne h later
    · exact joined_cons_of_ne_nil a he later
  | cons b before ih =>
    rw [List.cons_append, joined_cons_of_ne_nil b (by simp), ih, List.cons_append]

/-- Either two texts become one, or nothing happens to the tokens. -/
theorem joined_eq_or (earlier later : List Token) :
    joined earlier later = earlier ++ later ∨
      ∃ before a b after, earlier = before ++ [a] ∧ later = b :: after ∧ a.kind = .text ∧
        b.kind = .text ∧
        joined earlier later = before ++ { a with value := a.value ++ b.value } :: after := by
  induction earlier with
  | nil => exact .inl rfl
  | cons a earlier ih =>
    by_cases he : earlier = []
    · subst he
      cases later with
      | nil => exact .inl rfl
      | cons b after =>
        by_cases hk : a.kind = .text ∧ b.kind = .text
        · exact .inr ⟨[], a, b, after, rfl, rfl, hk.1, hk.2, if_pos hk⟩
        · exact .inl (if_neg hk)
    · rw [joined_cons_of_ne_nil a he]
      rcases ih with h | ⟨before, c, b, after, rfl, rfl, hc, hb, h⟩
      · exact .inl (by rw [h, List.cons_append])
      · exact .inr ⟨a :: before, c, b, after, rfl, rfl, hc, hb, by rw [h, List.cons_append]⟩

/-- No text goes on in a tag. -/
theorem joined_cons_of_ne {b : Token} (h : b.kind ≠ .text) (earlier later : List Token) :
    joined earlier (b :: later) = earlier ++ b :: later := by
  rcases joined_eq_or earlier (b :: later) with he | ⟨_, _, c, _, _, hc, _, hk, _⟩
  · exact he
  · obtain ⟨rfl, _⟩ := List.cons.inj hc
    exact absurd hk h

/-! ## Scanning some lines further down -/

/-- The scanner some lines further down. -/
def Scanner.shift (n : Nat) (s : Scanner) : Scanner := { s with line := s.line + n }

section

variable (n : Nat) (s : Scanner)

theorem passText_shift :
    (s.shift n).passText = (s.passText.1, s.passText.2.shift n) := by
  simp only [Scanner.passText, Scanner.shift, Nat.add_right_comm]
  rfl

theorem passTag_shift :
    (s.shift n).passTag =
      ((s.passTag.1.map (·.shift n)).mapError (·.shift n), s.passTag.2.shift n) := by
  simp only [Scanner.passTag, Scanner.shift]
  cases RawTag.read s.delimiters.closing (s.rest.drop s.delimiters.opening.length) with
  | error cause => rfl
  | ok tag =>
    cases hm : tag.meaning s.delimiters with
    | error cause => simp only [hm]; rfl
    | ok m => simp only [hm, Nat.add_right_comm]; rfl

theorem next_shift :
    (s.shift n).next = s.next.map fun (token, s') =>
      ((token.map (·.shift n)).mapError (·.shift n), s'.shift n) := by
  rw [Scanner.next, Scanner.next, passTag_shift, passText_shift]
  cases hphase : s.phase with
  | done => simp [Scanner.shift, hphase]
  | tag => simp [Scanner.shift, hphase]
  | text =>
    simp only [Scanner.shift, hphase]
    obtain ⟨text, s', hs⟩ : ∃ text s', s.passText = (text, s') := ⟨_, _, rfl⟩
    rw [hs]
    cases text with
    | nil =>
      simp only
      have := passTag_shift n s'
      rw [Scanner.shift] at this
      rw [this]
      split <;> rfl
    | cons c text => rfl

/-- Further down, a scanner yields the same tokens or the same error further down. -/
theorem tokens_shift :
    (s.shift n).tokens = (s.tokens.map (·.map (·.shift n))).mapError (·.shift n) := by
  fun_induction Scanner.tokens s with
  | case1 s h => rw [Scanner.tokens_eq, next_shift, h]; rfl
  | case2 s e s' h => rw [Scanner.tokens_eq, next_shift, h]; rfl
  | case3 s token s' h ih =>
    rw [Scanner.tokens_eq, next_shift, h]
    simp only [Option.map_some, Except.map, Except.mapError, ih]
    cases s'.tokens with
    | error e => rfl
    | ok later => rfl

/-- On which line it is does not matter to the delimiters. -/
theorem lastDelimiters_shift : (s.shift n).lastDelimiters = s.lastDelimiters := by
  fun_induction Scanner.lastDelimiters s with
  | case1 s h => rw [Scanner.lastDelimiters_eq, next_shift, h]; rfl
  | case2 s e s' h => rw [Scanner.lastDelimiters_eq, next_shift, h]; rfl
  | case3 s token s' h ih => rw [Scanner.lastDelimiters_eq, next_shift, h]; exact ih

end

/-! ## Readings one after the other -/

namespace Reading

/-- The reading with some more text at its start. -/
def prepend (text : List Char) : Reading → Reading
  | .last t => .last (text ++ t)
  | .cons t tag rest => .cons (text ++ t) tag rest

/-- A reading followed by another one. -/
def append : Reading → Reading → Reading
  | .last text, r => r.prepend text
  | .cons text tag rest, r => .cons text tag (rest.append r)

theorem source_append (r r' : Reading) : (r.append r').source = r.source ++ r'.source := by
  induction r with
  | last text => cases r' <;> simp [append, prepend, source]
  | cons text tag rest ih => simp [append, source, ih]

end Reading

namespace Scanner

variable {d d' : Delimiters} {line : Nat} {text inner : List Char}

theorem lastDelimiters_done {rest : List Char} : lastDelimiters ⟨rest, line, d, .done⟩ = d := by
  rw [lastDelimiters_eq]
  rfl

theorem lastDelimiters_of_not_infix (h : ¬ d.opening <:+: text) :
    lastDelimiters ⟨text, line, d, .text⟩ = d := by
  have hs := Text.splitBefore_of_not_infix h
  cases text with
  | nil => rw [lastDelimiters_eq]; rfl
  | cons c text =>
    rw [lastDelimiters_eq]
    simp only [next, passText, hs, List.isEmpty_nil, if_true, lastDelimiters_done]

theorem lastDelimiters_of_isFirst (hd : d.opening ≠ []) (h : Text.IsFirst d.opening text inner) :
    lastDelimiters ⟨text ++ d.opening ++ inner, line, d, .text⟩ =
      lastDelimiters ⟨d.opening ++ inner, line + Text.lineFeeds text, d, .tag⟩ := by
  have hs := Text.splitBefore_of_isFirst h
  have hne : (d.opening ++ inner).isEmpty = false := by simpa using fun h => absurd h hd
  cases text with
  | nil =>
    rw [lastDelimiters_eq, lastDelimiters_eq ⟨d.opening ++ inner, _, _, _⟩]
    simp only [next, passText, hs, hne, Bool.false_eq_true, if_false, if_true]
  | cons c text =>
    rw [lastDelimiters_eq]
    simp only [next, passText, hs, hne, Bool.false_eq_true, if_false]

theorem lastDelimiters_of_means {content rest value : List Char} {shape : Shape} {kind : Kind}
    (hs : Shape.of (shape.enclose d.closing content ++ rest) = shape)
    (hf : Text.IsFirst (shape.closer d.closing) content rest)
    (hm : Means d shape content kind value d') :
    lastDelimiters ⟨d.opening ++ (shape.enclose d.closing content ++ rest), line, d, .tag⟩ =
      lastDelimiters ⟨rest, line + Text.lineFeeds (d.opening ++ shape.enclose d.closing content),
        d', .text⟩ := by
  rw [lastDelimiters_eq]
  simp only [next, passTag, List.drop_left, RawTag.read_of_isFirst hs hf,
    (meaning_eq_ok_iff ⟨shape, content, rest⟩).2 hm]
  rfl

end Scanner

section

variable {d : Delimiters}

theorem feed_not_mem_opening (hd : d.Usable) : '\n' ∉ d.opening := fun h =>
  absurd (hd.isReserved_opening _ h) (by decide)

theorem shape_of_append {inner : List Char} (h : inner ≠ []) (t : List Char) :
    Shape.of (inner ++ t) = Shape.of inner := by
  cases inner with
  | nil => exact absurd rfl h
  | cons c inner => rw [List.cons_append, Shape.of.eq_def, Shape.of.eq_def]; split <;> simp_all

theorem enclose_ne_nil {closing : List Char} (h : closing ≠ []) (content : List Char)
    (shape : Shape) : shape.enclose closing content ≠ [] := by
  cases shape <;> simp [Shape.enclose, Shape.closer, h]

/-- A tag is read in the same way, whatever follows. -/
theorem shaped_append {shape : Shape} {content rest : List Char} (hd : d.Usable)
    (h : Shape.of (shape.enclose d.closing content ++ rest) = shape) (t : List Char) :
    Shape.of (shape.enclose d.closing content ++ (rest ++ t)) = shape := by
  have hne := enclose_ne_nil hd.closing_ne_nil content shape
  rw [shape_of_append hne] at h ⊢
  exact h

/-- No tag ends in a line feed, so what ends a line comes after the tags. -/
theorem endsLine_behind {text rest : List Char} {tag : Tag} (hs : tag.Sealed)
    (h : Text.EndsLine (text ++ tag.source ++ rest)) : rest ≠ [] ∧ Text.EndsLine rest := by
  by_cases hr : rest = []
  · subst hr
    obtain ⟨s, c, hc, hsolid⟩ := hs.ends
    rw [List.append_nil, hc, ← List.append_assoc, Text.endsLine_append_iff (by simp)] at h
    obtain rfl : c = '\n' := h c rfl
    exact absurd hsolid (by decide)
  · exact ⟨hr, (Text.endsLine_append_iff hr).1 h⟩

theorem Reads.prepend {r : Reading} {text : List Char} (h : Reads d r)
    (ht : Text.ClearOf d.opening text) : Reads d (r.prepend text) := by
  cases h with
  | last habsent => exact .last (ht.not_infix_append habsent)
  | cons opens shaped closes means reads =>
    exact .cons (opens.append_left ht) shaped closes means reads

/-- Behind the end of a line a template is read with the delimiters in force there. -/
theorem Reads.append {r r' : Reading} {line : Nat} (h : Reads d r) (hd : d.Usable)
    (hl : Text.EndsLine r.source)
    (h' : Reads (Scanner.lastDelimiters ⟨r.source, line, d, .text⟩) r') :
    Reads d (r.append r') := by
  induction h generalizing line with
  | last habsent =>
    rw [Reading.source, Scanner.lastDelimiters_of_not_infix habsent] at h'
    exact h'.prepend (hl.clearOf (feed_not_mem_opening hd) habsent)
  | @cons d d' text content value shape kind rest opens shaped closes means reads ih =>
    have hs := (Reads.cons opens shaped closes means reads).sealed hd
    rw [Reading.source_cons, Scanner.lastDelimiters_of_isFirst hd.opening_ne_nil opens,
      Scanner.lastDelimiters_of_means shaped closes means] at h'
    have hrest := ih (means.usable hd) (endsLine_behind hs.1 hl).2 h'
    have hsource := Reading.source_append rest r'
    refine .cons ?_ ?_ ?_ means hrest
    · rw [hsource, ← List.append_assoc]
      exact opens.append_right _
    · rw [hsource]
      exact shaped_append hd shaped _
    · rw [hsource]
      exact closes.append_right _

/-- Delimiters that can be used are in force at the end of a template. -/
theorem Reads.usable_lastDelimiters {r : Reading} {line : Nat} (h : Reads d r) (hd : d.Usable) :
    (Scanner.lastDelimiters ⟨r.source, line, d, .text⟩).Usable := by
  induction h generalizing line with
  | last habsent =>
    rw [Reading.source, Scanner.lastDelimiters_of_not_infix habsent]
    exact hd
  | cons opens shaped closes means reads ih =>
    rw [Reading.source_cons, Scanner.lastDelimiters_of_isFirst hd.opening_ne_nil opens,
      Scanner.lastDelimiters_of_means shaped closes means]
    exact ih (means.usable hd)

/-- Behind a text the delimiters change as they do without it. -/
theorem lastDelimiters_prepend (hd : d.Usable) {text t : List Char} {line : Nat}
    (ht : Text.ClearOf d.opening text) :
    Scanner.lastDelimiters ⟨text ++ t, line, d, .text⟩ =
      Scanner.lastDelimiters ⟨t, line + Text.lineFeeds text, d, .text⟩ := by
  by_cases ho : d.opening <:+: t
  · obtain ⟨before, inner, rfl, opens⟩ := Text.exists_isFirst ho
    rw [Scanner.lastDelimiters_of_isFirst hd.opening_ne_nil opens, ← List.append_assoc,
      ← List.append_assoc,
      Scanner.lastDelimiters_of_isFirst hd.opening_ne_nil (opens.append_left ht),
      Text.lineFeeds_append, ← Nat.add_assoc]
  · rw [Scanner.lastDelimiters_of_not_infix ho,
      Scanner.lastDelimiters_of_not_infix (ht.not_infix_append ho)]

/-- What follows starts with the delimiters in force at the end. -/
theorem Reads.lastDelimiters_append {r : Reading} {line : Nat} (h : Reads d r) (hd : d.Usable)
    (hl : Text.EndsLine r.source) (t : List Char) :
    Scanner.lastDelimiters ⟨r.source ++ t, line, d, .text⟩ =
      Scanner.lastDelimiters ⟨t, line + Text.lineFeeds r.source,
        Scanner.lastDelimiters ⟨r.source, line, d, .text⟩, .text⟩ := by
  induction h generalizing line with
  | last habsent =>
    rw [Reading.source, Scanner.lastDelimiters_of_not_infix habsent]
    exact lastDelimiters_prepend hd (hl.clearOf (feed_not_mem_opening hd) habsent)
  | @cons d d' text content value shape kind rest opens shaped closes means reads ih =>
    have hs := (Reads.cons opens shaped closes means reads).sealed hd
    have hopens := opens.append_right t
    rw [List.append_assoc] at hopens
    rw [Reading.source_cons, List.append_assoc, List.append_assoc (shape.enclose d.closing content),
      Scanner.lastDelimiters_of_isFirst hd.opening_ne_nil hopens,
      Scanner.lastDelimiters_of_means (shaped_append hd shaped t) (closes.append_right t) means,
      ih (means.usable hd) (endsLine_behind hs.1 hl).2,
      Scanner.lastDelimiters_of_isFirst hd.opening_ne_nil opens,
      Scanner.lastDelimiters_of_means shaped closes means]
    simp only [Text.lineFeeds_append, Nat.add_assoc]

/-- An improper tag behind a text is found on its line. -/
theorem tokens_prepend_eq_error (hd : d.Usable) {text t : List Char} {line : Nat}
    {e : TemplateError} (ht : Text.ClearOf d.opening text)
    (he : Scanner.tokens ⟨t, line + Text.lineFeeds text, d, .text⟩ = .error e) :
    Scanner.tokens ⟨text ++ t, line, d, .text⟩ = .error e := by
  by_cases ho : d.opening <:+: t
  · obtain ⟨before, inner, rfl, opens⟩ := Text.exists_isFirst ho
    rw [Scanner.tokens_of_isFirst hd.opening_ne_nil opens, map_eq_error_iff] at he
    rw [← List.append_assoc, ← List.append_assoc,
      Scanner.tokens_of_isFirst hd.opening_ne_nil (opens.append_left ht), map_eq_error_iff,
      Text.lineFeeds_append, ← Nat.add_assoc]
    exact he
  · rw [Scanner.tokens_of_not_infix ho] at he
    cases he

/-- An improper tag in what follows is found on its line. -/
theorem tokens_append_eq_error {r : Reading} {t : List Char} {line : Nat} {e : TemplateError}
    (h : Reads d r) (hd : d.Usable) (hl : Text.EndsLine r.source)
    (he : Scanner.tokens ⟨t, line + Text.lineFeeds r.source,
      Scanner.lastDelimiters ⟨r.source, line, d, .text⟩, .text⟩ = .error e) :
    Scanner.tokens ⟨r.source ++ t, line, d, .text⟩ = .error e := by
  induction h generalizing line with
  | last habsent =>
    rw [Reading.source, Scanner.lastDelimiters_of_not_infix habsent] at he
    exact tokens_prepend_eq_error hd (hl.clearOf (feed_not_mem_opening hd) habsent) he
  | @cons d d' text content value shape kind rest opens shaped closes means reads ih =>
    have hs := (Reads.cons opens shaped closes means reads).sealed hd
    have hlines : line + Text.lineFeeds (text ++ d.opening ++
        (shape.enclose d.closing content ++ rest.source)) =
        line + Text.lineFeeds text + Text.lineFeeds (d.opening ++ shape.enclose d.closing content) +
          Text.lineFeeds rest.source := by
      simp only [Text.lineFeeds_append]
      omega
    rw [Reading.source_cons, Scanner.lastDelimiters_of_isFirst hd.opening_ne_nil opens,
      Scanner.lastDelimiters_of_means shaped closes means, hlines] at he
    have hrest := ih (means.usable hd) (endsLine_behind hs.1 hl).2 he
    have hopens := opens.append_right t
    rw [List.append_assoc] at hopens
    rw [Reading.source_cons, List.append_assoc, List.append_assoc (shape.enclose d.closing content),
      Scanner.tokens_of_isFirst hd.opening_ne_nil hopens,
      Scanner.tokens_of_means (shaped_append hd shaped t) (closes.append_right t) means, hrest]
    rfl

end

/-! ## The rule on lines, on either side of the end of a line -/

namespace Place

/-- What comes before the line of a tag only moves it down. -/
theorem standsAlone_behind {before : List Char} (h : Text.EndsLine before) (p : Place) :
    StandsAlone ⟨before ++ p.before, p.tag, p.after⟩ ↔ p.StandsAlone := by
  simp only [StandsAlone, Text.lastLine_append_of_endsLine h]

theorem lead_behind {before : List Char} (h : Text.EndsLine before) (p : Place) :
    lead ⟨before ++ p.before, p.tag, p.after⟩ = p.lead := by
  simp only [lead, standsAlone_behind h, Text.lastLine_append_of_endsLine h]

theorem trail_behind {before : List Char} (h : Text.EndsLine before) (p : Place) :
    trail ⟨before ++ p.before, p.tag, p.after⟩ = p.trail := by
  simp only [trail, standsAlone_behind h]

theorem tokens_behind {before : List Char} (h : Text.EndsLine before) (p : Place) :
    tokens ⟨before ++ p.before, p.tag, p.after⟩ =
      p.tokens.map (·.shift (Text.lineFeeds before)) := by
  have hline : line ⟨before ++ p.before, p.tag, p.after⟩ = p.line + Text.lineFeeds before := by
    rw [line, line, Text.lineFeeds_append]
    omega
  simp only [tokens, standsAlone_behind h, Text.lastLine_append_of_endsLine h, hline]
  split <;> rfl

/-- What comes after the line of a tag does not matter to it. -/
theorem standsAlone_append {p : Place} (h : '\n' ∈ p.after) (t : List Char) :
    StandsAlone ⟨p.before, p.tag, p.after ++ t⟩ ↔ p.StandsAlone := by
  simp only [StandsAlone, Text.firstLine_append_of_mem h]

theorem lead_append {p : Place} (h : '\n' ∈ p.after) (t : List Char) :
    lead ⟨p.before, p.tag, p.after ++ t⟩ = p.lead := by
  simp only [lead, standsAlone_append h]

theorem trail_append {p : Place} (h : '\n' ∈ p.after) (t : List Char) :
    trail ⟨p.before, p.tag, p.after ++ t⟩ = p.trail := by
  simp only [trail, standsAlone_append h, Text.firstLine_append_of_mem h, h,
    List.mem_append_left t h]

theorem tokens_append {p : Place} (h : '\n' ∈ p.after) (t : List Char) :
    tokens ⟨p.before, p.tag, p.after ++ t⟩ = p.tokens := by
  simp only [tokens, standsAlone_append h, line]

/-- The tokens of a tag end with the tag itself. -/
theorem tokens_eq_append (p : Place) :
    ∃ indenters, p.tokens = indenters ++ [⟨p.tag.kind, p.tag.value, p.line⟩] := by
  rw [tokens]
  split
  · exact ⟨[_], rfl⟩
  · exact ⟨[], rfl⟩

/-- The tokens of a tag start with no text. -/
theorem exists_tokens_eq_cons {p : Place} (h : p.tag.kind ≠ .text) :
    ∃ token later, p.tokens = token :: later ∧ token.kind ≠ .text := by
  rw [tokens]
  split
  · exact ⟨_, _, rfl, by simp⟩
  · exact ⟨_, _, rfl, h⟩

end Place

theorem cutTokens_behind (before behind : List Char) (start stop : Nat) (text : List Char) :
    cutTokens (before ++ behind) start stop text =
      (cutTokens behind start stop text).map (·.shift (Text.lineFeeds before)) := by
  have hline : 1 + Text.lineFeeds (before ++ behind ++ text.take start) =
      1 + Text.lineFeeds (behind ++ text.take start) + Text.lineFeeds before := by
    simp only [Text.lineFeeds_append]
    omega
  rw [cutTokens, cutTokens, Reading.textTokens, Reading.textTokens, hline]
  split <;> rfl

/-- Behind the end of a line a template has its own tokens, moved down. -/
theorem linesFrom_behind {before : List Char} (h : Text.EndsLine before) (r : Reading)
    (behind : List Char) (taken : Nat) :
    r.linesFrom (before ++ behind) taken =
      (r.linesFrom behind taken).map (·.shift (Text.lineFeeds before)) := by
  induction r generalizing behind taken with
  | last text => exact cutTokens_behind ..
  | cons text tag rest ih =>
    simp only [Reading.linesFrom, List.map_append, cutTokens_behind, List.append_assoc,
      Place.lead_behind h ⟨behind ++ text, tag, rest.source⟩,
      Place.tokens_behind h ⟨behind ++ text, tag, rest.source⟩,
      Place.trail_behind h ⟨behind ++ text, tag, rest.source⟩]
    rw [ih]

/-- A text that is cut at its start goes on in one that is cut at its end. -/
theorem joined_cutTokens (before : List Char) {text t : List Char} {start stop : Nat}
    (hstart : start ≤ text.length) (hstop : stop ≤ t.length) (later : List Token)
    (hlater : ∀ token ∈ later.head?, token.kind ≠ .text) :
    joined (cutTokens before start 0 text) (cutTokens (before ++ text) 0 stop t ++ later) =
      cutTokens before start stop (text ++ t) ++ later := by
  have hvalue : ((text ++ t).take ((text ++ t).length - stop)).drop start =
      text.drop start ++ t.take (t.length - stop) := by
    have hlen : (text ++ t).length - stop = text.length + (t.length - stop) := by
      rw [List.length_append]
      omega
    rw [hlen, List.take_length_add_append, List.drop_append_of_le_length hstart]
  have htake : (text ++ t).take start = text.take start := List.take_append_of_le_length hstart
  simp only [cutTokens, hvalue, htake, Nat.sub_zero, List.take_length, List.drop_zero,
    List.take_zero, List.append_nil]
  by_cases hs : text.drop start = []
  · -- Nothing is left of the first text, so the second one starts where it ended.
    have htext : text.take start = text := by
      rw [List.take_of_length_le (List.drop_eq_nil_iff.1 hs)]
    rw [hs, htext, textTokens_nil, joined_nil_left, List.nil_append]
  · rw [textTokens_of_ne_nil hs]
    by_cases ht : t.take (t.length - stop) = []
    · rw [ht, List.append_nil, textTokens_nil, List.nil_append, textTokens_of_ne_nil hs]
      cases later with
      | nil => rfl
      | cons token later => simp [joined, hlater token rfl]
    · rw [textTokens_of_ne_nil ht, textTokens_of_ne_nil (by simp [hs])]
      rfl

theorem lead_le_of_endsLine {before : List Char} (h : Text.EndsLine before) (text : List Char)
    (tag : Tag) (after : List Char) : Place.lead ⟨before ++ text, tag, after⟩ ≤ text.length := by
  rw [Place.lead, Text.lastLine_append_of_endsLine h]
  split
  · exact (Text.lastLine_suffix text).length_le
  · exact Nat.zero_le _

/-- What a tag takes of the text after it is no more than the text. -/
theorem taken_le {before text : List Char} {taken : Nat} (h : Taken before taken text) :
    taken ≤ text.length := by
  rcases h with rfl | ⟨-, -, rfl⟩
  · exact Nat.zero_le _
  · by_cases hm : '\n' ∈ text
    · have := Text.length_firstLine_add_lastLine_lt hm
      rw [if_pos hm]
      omega
    · rw [if_neg hm, Nat.add_zero]
      exact (List.takeWhile_sublist _).length_le

/-- The tokens of a template that ends a line, and then those of what follows. -/
theorem linesFrom_append {d d' : Delimiters} {r r' : Reading} (hr : Reads d r) (hd : d.Usable)
    (hr' : Reads d' r') (hd' : d'.Usable) {before : List Char} {taken : Nat}
    (hl : Text.EndsLine (before ++ r.source)) (ht : Taken before taken r.source) :
    (r.append r').linesFrom before taken =
      joined (r.linesFrom before taken) (r'.linesFrom (before ++ r.source) 0) := by
  induction r generalizing d before taken with
  | last text =>
    cases r' with
    | last t =>
      have h := joined_cutTokens before (taken_le ht) (Nat.zero_le t.length) [] (by simp)
      rw [List.append_nil, List.append_nil] at h
      exact h.symm
    | cons t tag rest =>
      have hlead := lead_le_of_endsLine hl t tag rest.source
      obtain ⟨token, later, htokens, hk⟩ := Place.exists_tokens_eq_cons
        (p := ⟨before ++ text ++ t, tag, rest.source⟩) (hr'.sealed hd').1.ne_text
      have h := joined_cutTokens before (taken_le ht) hlead
        (Place.tokens ⟨before ++ text ++ t, tag, rest.source⟩ ++ rest.linesFrom
          (before ++ text ++ t ++ tag.source) (Place.trail ⟨before ++ text ++ t, tag, rest.source⟩))
        (by rw [htokens]; rintro _ ⟨⟩; exact hk)
      simpa only [Reading.append, Reading.prepend, Reading.linesFrom, Reading.source,
        List.append_assoc] using h.symm
  | cons text tag rest ih =>
    obtain ⟨hs, e, he, hrest⟩ := hr.sealed hd
    have hl' : Text.EndsLine (before ++ text ++ tag.source ++ rest.source) := by
      simpa only [Reading.source, List.append_assoc] using hl
    -- The line of the tag ends in front of the cut.
    obtain ⟨hne, hends⟩ := endsLine_behind hs hl'
    have hfeed : '\n' ∈ (Place.mk (before ++ text) tag rest.source).after := hends.mem hne
    have hrec := ih hrest he hl' (taken_trail (p := ⟨before ++ text, tag, rest.source⟩) hs)
    obtain ⟨indenters, htokens⟩ :=
      Place.tokens_eq_append ⟨before ++ text, tag, rest.source⟩
    have hsource : before ++ text ++ tag.source ++ rest.source =
        before ++ (Reading.cons text tag rest).source := by
      simp only [Reading.source, List.append_assoc]
    rw [Reading.append, Reading.linesFrom, Reading.source_append, Place.lead_append hfeed,
      Place.tokens_append hfeed, Place.trail_append hfeed, hrec, Reading.linesFrom, htokens,
      hsource]
    have hjoined := joined_append_cons
      (a := ⟨tag.kind, tag.value, Place.line ⟨before ++ text, tag, rest.source⟩⟩) hs.ne_text
      (cutTokens before taken (Place.lead ⟨before ++ text, tag, rest.source⟩) text ++ indenters)
    simpa only [List.append_assoc, List.singleton_append] using (hjoined _ _).symm

/-- A template that is cut at the end of a line has the tokens of the two pieces, those of the
    second one moved down. What is wrong with the second piece is wrong with the template. -/
theorem tokenize_append {d : Delimiters} (hd : d.Usable) {s : List Char} {tokens : List Token}
    (h : tokenize d s = .ok tokens) (hl : Text.EndsLine s) (t : List Char) :
    tokenize d (s ++ t) =
      ((tokenize (delimitersAfter d s) t).map fun later =>
        joined tokens (later.map (·.shift (Text.lineFeeds s)))).mapError
          (·.shift (Text.lineFeeds s)) := by
  obtain ⟨r, hr, rfl, rfl⟩ := (tokenize_eq_ok_iff hd).1 h
  have hd' : (delimitersAfter d r.source).Usable := hr.usable_lastDelimiters hd
  cases ht : tokenize (delimitersAfter d r.source) t with
  | ok later =>
    obtain ⟨r', hr', rfl, rfl⟩ := (tokenize_eq_ok_iff hd').1 ht
    refine (tokenize_eq_ok_iff hd).2 ⟨r.append r', hr.append hd hl hr', r.source_append r', ?_⟩
    have hbehind := linesFrom_behind hl r' [] 0
    rw [List.append_nil] at hbehind
    rw [linesFrom_append hr hd hr' hd' hl (.inl rfl), List.nil_append, hbehind]
  | error e =>
    -- The scanner comes to the improper tag, with as many more lines gone by.
    have hscan : scan (delimitersAfter d r.source) t = .error e := tokenize_eq_error_iff.1 ht
    have hshift := tokens_shift (Text.lineFeeds r.source)
      (Scanner.start (delimitersAfter d r.source) t)
    rw [show (Scanner.start _ t).tokens = .error e from hscan] at hshift
    have herror : Scanner.tokens ⟨r.source ++ t, 1, d, .text⟩ = .error _ :=
      tokens_append_eq_error hr hd hl hshift
    rw [tokenize, scan, Scanner.start, herror]
    rfl

theorem usable_delimitersAfter {d : Delimiters} (hd : d.Usable) {s : List Char}
    {tokens : List Token} (h : tokenize d s = .ok tokens) : (delimitersAfter d s).Usable := by
  obtain ⟨r, hr, rfl, -⟩ := (tokenize_eq_ok_iff hd).1 h
  exact hr.usable_lastDelimiters hd

/-- What follows a template that ends a line starts with the delimiters in force there. -/
theorem delimitersAfter_append {d : Delimiters} (hd : d.Usable) {s : List Char}
    {tokens : List Token} (h : tokenize d s = .ok tokens) (hl : Text.EndsLine s) (t : List Char) :
    delimitersAfter d (s ++ t) = delimitersAfter (delimitersAfter d s) t := by
  obtain ⟨r, hr, rfl, -⟩ := (tokenize_eq_ok_iff hd).1 h
  exact (hr.lastDelimiters_append hd hl t).trans
    (lastDelimiters_shift (Text.lineFeeds r.source) (Scanner.start (delimitersAfter d r.source) t))

end Template

end Mustache
