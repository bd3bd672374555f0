import Mustache.Proofs.Reading.Calls

/-!
# What tags take from a text

A text between two tags is cut by both if they stand alone: the tag in front of it takes the rest of
its own line off the start, and the tag behind it takes the blanks in front of itself off the end.
Each of them looks at the text on its own. Still no character is taken twice (`Cut.Fits`): where the
text holds a line feed, the one takes nothing behind the first line feed and the other nothing up to
the last; and where it holds none, a tag takes something only at the end of the template, or at its
start, where there is no tag on the other side.

The cuts can be found in one pass over the tokens, in which each tag that stands alone notes down at
its neighbours what it takes from them (`noted`).

* `getElem?_noted`: in the end there stands at each token what the rule on lines takes from it;
* `fits_cutOf`: the two ends that are cut off a text do not overlap;
* `cuts_never_overlap`: both of these for the tokens that a scanner yields.
-/

namespace Mustache

namespace Text

theorem take_length_firstLine_succ {s : List Char} (h : '\n' ∈ s) :
    s.take ((firstLine s).length + 1) = firstLine s ++ ['\n'] := by
  obtain ⟨line, rest, rfl, hline⟩ := List.eq_append_cons_of_mem h
  have hfirst : firstLine (line ++ '\n' :: rest) = line := by
    rw [firstLine_append_of_not_mem hline]
    exact List.append_nil line
  rw [hfirst, List.take_length_add_append]
  rfl

theorem firstLine_of_not_mem {s : List Char} (h : '\n' ∉ s) : firstLine s = s := by
  have happend := firstLine_append_of_not_mem (t := []) h
  rwa [List.append_nil, show firstLine [] = [] from rfl, List.append_nil] at happend

theorem drop_length_sub_lastLine (s : List Char) :
    s.drop (s.length - (lastLine s).length) = lastLine s :=
  (List.suffix_iff_eq_drop.1 (lastLine_suffix s)).symm

/-- A text of characters of one byte each has as many bytes. -/
theorem utf8ByteSize_eq_length {s : List Char} (h : ∀ c ∈ s, c.utf8Size = 1) :
    (String.ofList s).utf8ByteSize = s.length := by
  rw [String.utf8ByteSize_ofList]
  induction s with
  | nil => rfl
  | cons c s ih =>
    rw [List.forall_mem_cons] at h
    rw [String.utf8Len_cons, ih h.2, h.1, List.length_cons]

end Text

namespace Template

/-! ## The pass over the tokens -/

/-- What the tag at an index takes from its neighbours, if it stands alone. -/
def standsAt? (tokens : List Token) (i : Nat) : Option Standing :=
  match tokens.drop i with
  | [] => none
  | tag :: after => standing? (tokens.take i).reverse tag after

theorem standsAt?_append (earlier : List Token) (tag : Token) (later : List Token) :
    standsAt? (earlier.reverse ++ tag :: later) earlier.length = standing? earlier tag later := by
  rw [← List.length_reverse, standsAt?, List.drop_left, List.take_left, List.reverse_reverse]

/-- The cuts after the tag at an index has noted down what it takes: from the token in front of it,
    if there is one, and from the token behind it. -/
def Standing.note (s : Standing) (cuts : List Cut) : Nat → List Cut
  | 0 => cuts.modify 1 fun c => { c with start := s.ending }
  | i + 1 => (cuts.modify i fun c => { c with stop := s.indent.length }).modify (i + 2)
      fun c => { c with start := s.ending }

/-- The cuts that the first `k` tokens have noted down. -/
def notedBy (tokens : List Token) : Nat → List Cut
  | 0 => List.replicate tokens.length ⟨0, 0⟩
  | k + 1 =>
    match standsAt? tokens k with
    | none => notedBy tokens k
    | some s => s.note (notedBy tokens k) k

/-- The cuts that all of the tokens have noted down. -/
def noted (tokens : List Token) : List Cut := notedBy tokens tokens.length

/-- A tag only writes at its neighbours: the start of the cut behind it, and the end of the cut in
    front of it. -/
theorem getElem?_note (s : Standing) (cuts : List Cut) (i j : Nat) :
    (s.note cuts i)[j]? = cuts[j]?.map fun c =>
      ⟨if j = i + 1 then s.ending else c.start, if j + 1 = i then s.indent.length else c.stop⟩ := by
  cases i with
  | zero =>
    simp only [Standing.note, List.getElem?_modify, Option.map_eq_map]
    congr 1
    funext c
    by_cases hj : j = 1
    · simp [hj]
    · simp [hj, Ne.symm hj]
  | succ i =>
    simp only [Standing.note, List.getElem?_modify, Option.map_eq_map, Option.map_map]
    congr 1
    funext c
    by_cases hj : j = i
    · simp [hj, show i ≠ i + 2 by omega]
    · by_cases hj' : j = i + 2
      · simp [hj']
      · simp [hj, hj', Ne.symm hj, Ne.symm hj']

/-- One more token may note down something at its neighbours. -/
theorem getElem?_notedBy_succ (tokens : List Token) (k i : Nat) :
    (notedBy tokens (k + 1))[i]? = (notedBy tokens k)[i]?.map fun c =>
      ⟨if i = k + 1 then ((standsAt? tokens k).map (·.ending)).getD c.start else c.start,
        if i + 1 = k then ((standsAt? tokens k).map (·.indent.length)).getD c.stop
        else c.stop⟩ := by
  rw [notedBy]
  cases standsAt? tokens k with
  | none => simp
  | some s => exact getElem?_note s (notedBy tokens k) k i

/-- What the token in front of an index takes behind it. -/
def startAt (tokens : List Token) : Nat → Nat
  | 0 => 0
  | i + 1 => ((standsAt? tokens i).map (·.ending)).getD 0

/-- What the token behind an index takes in front of it. -/
def stopAt (tokens : List Token) (i : Nat) : Nat :=
  ((standsAt? tokens (i + 1)).map (·.indent.length)).getD 0

/-- After `k` tokens, those of them that are next to an index have noted down what they take. -/
theorem getElem?_notedBy {tokens : List Token} {i : Nat} (hi : i < tokens.length) (k : Nat) :
    (notedBy tokens k)[i]? =
      some ⟨if i ≤ k then startAt tokens i else 0, if i + 1 < k then stopAt tokens i else 0⟩ := by
  induction k with
  | zero =>
    cases i with
    | zero => simp [notedBy, hi, startAt]
    | succ i => simp [notedBy, hi]
  | succ k ih =>
    rw [getElem?_notedBy_succ, ih, Option.map_some]
    -- The token with the index `k` is in front of `i`, behind it, or not next to it.
    by_cases hfront : i = k + 1
    · subst hfront
      simp [startAt, show k + 1 + 1 ≠ k by omega, show ¬ k + 1 + 1 < k by omega]
    · by_cases hbehind : k = i + 1
      · subst hbehind
        simp [stopAt, show i ≠ i + 1 + 1 by omega, show i ≤ i + 1 + 1 by omega]
      · simp [hfront, Ne.symm hbehind, show i ≤ k + 1 ↔ i ≤ k by omega,
          show i < k ↔ i + 1 < k by omega]

theorem startAt_append (before : List Token) (token : Token) (after : List Token) :
    startAt (before.reverse ++ token :: after) before.length =
      (cutOf before token after).start := by
  cases before with
  | nil => rfl
  | cons tag earlier =>
    rw [List.reverse_cons, List.append_assoc, List.length_cons, startAt]
    exact congrArg (fun s : Option Standing => (s.map (·.ending)).getD 0)
      (standsAt?_append earlier tag (token :: after))

theorem stopAt_append (before : List Token) (token tag : Token) (later : List Token) :
    stopAt (before.reverse ++ token :: tag :: later) before.length =
      (cutOf before token (tag :: later)).stop := by
  have hstands := standsAt?_append (token :: before) tag later
  rw [List.reverse_cons, List.append_assoc] at hstands
  exact congrArg (fun s : Option Standing => (s.map (·.indent.length)).getD 0) hstands

/-- In the end there stands at each token what the rule on lines takes from it. -/
theorem getElem?_noted {tokens before after : List Token} {token : Token}
    (h : tokens = before.reverse ++ token :: after) :
    (noted tokens)[before.length]? = some (cutOf before token after) := by
  subst h
  have hlength : (before.reverse ++ token :: after).length = before.length + 1 + after.length := by
    rw [List.length_append, List.length_reverse, List.length_cons, Nat.add_comm after.length,
      Nat.add_assoc]
  rw [noted, getElem?_notedBy (by omega), if_pos (by omega), startAt_append, hlength]
  cases after with
  | nil => rw [if_neg (by simp)]; rfl
  | cons tag later => rw [if_pos (by simp), stopAt_append]

/-! ## The ends of a text -/

/-- A cut takes inline blanks off the end of a text, and off its start such blanks and a line feed,
    without any character being taken twice. -/
structure Cut.Fits (c : Cut) (text : List Char) : Prop where
  apart : c.start + c.stop ≤ text.length
  start : ∀ x ∈ text.take c.start, isInlineBlank x = true ∨ x = '\n'
  stop : ∀ x ∈ text.drop (text.length - c.stop), isInlineBlank x = true

section

variable {text : Token} {before after : List Token}

theorem endingAfter_cons_eq_some_iff {ending : Nat} :
    endingAfter (text :: after) = some ending ↔
      text.kind = .text ∧ (Text.firstLine text.value).all isInlineBlank = true ∧
        ('\n' ∈ text.value ∧ (Text.firstLine text.value).length + 1 = ending ∨
          '\n' ∉ text.value ∧ after = [] ∧ text.value.length = ending) := by
  have hf : text.value.takeWhile (· != '\n') = Text.firstLine text.value := rfl
  by_cases hfeed : '\n' ∈ text.value
  · simp [endingAfter, hf, hfeed, and_assoc]
  · simp [endingAfter, hf, hfeed, Text.firstLine_of_not_mem hfeed, and_assoc, and_left_comm]

theorem exists_of_start_ne_zero (h : (cutOf before text after).start ≠ 0) :
    ∃ tag earlier s, before = tag :: earlier ∧ standing? earlier tag (text :: after) = some s ∧
      (cutOf before text after).start = s.ending := by
  cases before with
  | nil => exact absurd rfl h
  | cons tag earlier =>
    cases hs : standing? earlier tag (text :: after) with
    | none => exact absurd (by simp [cutOf, hs]) h
    | some s => exact ⟨tag, earlier, s, rfl, hs, by simp [cutOf, hs]⟩

theorem exists_of_stop_ne_zero (h : (cutOf before text after).stop ≠ 0) :
    ∃ tag later s, after = tag :: later ∧ standing? (text :: before) tag later = some s ∧
      (cutOf before text after).stop = s.indent.length := by
  cases after with
  | nil => exact absurd rfl h
  | cons tag later =>
    cases hs : standing? (text :: before) tag later with
    | none => exact absurd (by simp [cutOf, hs]) h
    | some s => exact ⟨tag, later, s, rfl, hs, by simp [cutOf, hs]⟩

/-- The tag in front of a text takes nothing of it, or its first line with the line feed, or all of
    it at the end of the template. -/
theorem start_cutOf (before : List Token) (text : Token) (after : List Token) :
    (cutOf before text after).start = 0 ∨
      before ≠ [] ∧ (Text.firstLine text.value).all isInlineBlank = true ∧
        ('\n' ∈ text.value ∧
            (Text.firstLine text.value).length + 1 = (cutOf before text after).start ∨
          '\n' ∉ text.value ∧ after = [] ∧
            text.value.length = (cutOf before text after).start) := by
  by_cases hzero : (cutOf before text after).start = 0
  · exact .inl hzero
  · obtain ⟨tag, earlier, s, rfl, hs, hstart⟩ := exists_of_start_ne_zero hzero
    rw [hstart]
    exact .inr ⟨List.cons_ne_nil _ _,
      (endingAfter_cons_eq_some_iff.1 (standing?_eq_some_iff.1 hs).2.2).2⟩

/-- The tag behind a text takes nothing of it, or its last line, which starts with a line feed
    unless it starts the template. -/
theorem stop_cutOf (before : List Token) (text : Token) (after : List Token) :
    (cutOf before text after).stop = 0 ∨
      after ≠ [] ∧ (Text.lastLine text.value).all isInlineBlank = true ∧
        ('\n' ∈ text.value ∨ before = []) ∧
        (Text.lastLine text.value).length = (cutOf before text after).stop := by
  by_cases hzero : (cutOf before text after).stop = 0
  · exact .inl hzero
  · obtain ⟨tag, later, s, rfl, hs, hstop⟩ := exists_of_stop_ne_zero hzero
    obtain ⟨-, hline, hlast, hblank⟩ :=
      indentBefore_cons_eq_some_iff.1 (standing?_eq_some_iff.1 hs).2.1
    rw [hstop, hlast]
    exact .inr ⟨List.cons_ne_nil _ _, hblank, hline, rfl⟩

/-- Together the two ends are no longer than the text. -/
theorem start_add_stop_cutOf_le (before : List Token) (text : Token) (after : List Token) :
    (cutOf before text after).start + (cutOf before text after).stop ≤ text.value.length := by
  have hlast := (Text.lastLine_suffix text.value).length_le
  rcases stop_cutOf before text after with hstop | ⟨hafter, -, -, hstop⟩
  · rcases start_cutOf before text after with hstart | ⟨-, -, ⟨hfeed, hstart⟩ | ⟨-, -, hstart⟩⟩
    · omega
    · have hlt := Text.length_firstLine_add_lastLine_lt hfeed
      omega
    · omega
  · rcases start_cutOf before text after with
      hstart | ⟨-, -, ⟨hfeed, hstart⟩ | ⟨-, hend, -⟩⟩
    · omega
    · -- The line feed is behind the first line and in front of the last.
      have hlt := Text.length_firstLine_add_lastLine_lt hfeed
      omega
    · -- A text that all goes with the tag in front of it has no tag behind it.
      exact absurd hend hafter

/-- The two ends that are cut off a text do not overlap. -/
theorem fits_cutOf (before : List Token) (text : Token) (after : List Token) :
    (cutOf before text after).Fits text.value := by
  refine ⟨start_add_stop_cutOf_le before text after, fun x hx => ?_, fun x hx => ?_⟩
  · rcases start_cutOf before text after with
      hstart | ⟨-, hblank, ⟨hfeed, hstart⟩ | ⟨hfeed, -, hstart⟩⟩
    · rw [hstart, List.take_zero] at hx
      cases hx
    · rw [← hstart, Text.take_length_firstLine_succ hfeed, List.mem_append,
        List.mem_singleton] at hx
      exact hx.imp_left (List.all_eq_true.1 hblank x)
    · rw [← hstart, List.take_length] at hx
      rw [Text.firstLine_of_not_mem hfeed] at hblank
      exact .inl (List.all_eq_true.1 hblank x hx)
  · rcases stop_cutOf before text after with hstop | ⟨-, hblank, -, hstop⟩
    · rw [hstop, Nat.sub_zero, List.drop_length] at hx
      cases hx
    · rw [← hstop, Text.drop_length_sub_lastLine] at hx
      exact List.all_eq_true.1 hblank x hx

/-- What is cut off a text, and what is left of it, make it up. -/
theorem Cut.Fits.append_eq {c : Cut} (h : c.Fits text.value) :
    text.value.take c.start ++ (text.cut c).value ++
      text.value.drop (text.value.length - c.stop) = text.value := by
  have hapart := h.apart
  have hfront : text.value.take c.start =
      (text.value.take (text.value.length - c.stop)).take c.start := by
    rw [List.take_take, Nat.min_eq_left (by omega)]
  rw [cut_eq, hfront, List.take_append_drop, List.take_append_drop]

/-- The characters that are cut off a text have one byte each. -/
theorem utf8Size_of_blank {c : Char} (h : isInlineBlank c = true ∨ c = '\n') : c.utf8Size = 1 := by
  rcases h with h | rfl
  · rcases eq_of_isInlineBlank h with rfl | rfl | rfl <;> rfl
  · rfl

/-- A cut that takes effect as it is on a text of some length: its start is not behind the end of
    the text, and its stop neither in front of the text nor in front of its start. -/
def Cut.Unclamped (c : Cut) (length : Nat) : Prop :=
  min c.start length = c.start ∧ length - c.stop + c.stop = length ∧
    max (length - c.stop) c.start = length - c.stop

theorem Cut.Fits.unclamped {c : Cut} {s : List Char} (h : c.Fits s) {length : Nat}
    (hl : s.length ≤ length) : c.Unclamped length := by
  have hapart := h.apart
  exact ⟨by omega, by omega, by omega⟩

/-- Whatever the template and the delimiters that it starts with, the two ends that are cut off a
    text never overlap. In the pass over the tokens, what is noted down for the text in the end is
    what the tag in front of it takes off its start, if this stands alone, and what the tag behind
    it takes off its end; for there is no other text next to it. Together they are no longer than
    the text, be it counted in characters or in bytes, so that they take effect as they are, and the
    text consists of the one, of what is left of it, and of the other. -/
theorem cuts_never_overlap {d : Delimiters} {template : List Char} {raw : List Token}
    (h : scan d template = .ok raw) (hraw : raw = before.reverse ++ text :: after)
    (hk : text.kind = .text) :
    let c := cutOf before text after
    let bytes := fun s : List Char => (String.ofList s).utf8ByteSize
    (noted raw)[before.length]? = some c ∧
    (∀ tag ∈ before.head?, tag.kind ≠ .text) ∧ (∀ tag ∈ after.head?, tag.kind ≠ .text) ∧
    (c.start ≠ 0 → ∃ tag earlier s, before = tag :: earlier ∧
      standing? earlier tag (text :: after) = some s ∧ c.start = s.ending) ∧
    (c.stop ≠ 0 → ∃ tag later s, after = tag :: later ∧
      standing? (text :: before) tag later = some s ∧ c.stop = s.indent.length) ∧
    c.start + c.stop ≤ text.value.length ∧ c.Unclamped text.value.length ∧
    c.Unclamped (bytes text.value) ∧
    ∃ front back, text.value = front ++ (text.cut c).value ++ back ∧
      front.length = c.start ∧ bytes front = c.start ∧
      back.length = c.stop ∧ bytes back = c.stop := by
  intro c bytes
  have hfits : c.Fits text.value := fits_cutOf before text after
  have hapart := hfits.apart
  have hsize : text.value.length ≤ bytes text.value := by
    simpa [bytes] using length_le_utf8ByteSize (String.ofList text.value)
  have hfront : (text.value.take c.start).length = c.start := by
    rw [List.length_take]
    omega
  have hback : (text.value.drop (text.value.length - c.stop)).length = c.stop := by
    rw [List.length_drop]
    omega
  refine ⟨getElem?_noted hraw, ?_, ?_, ?_, ?_, hapart, hfits.unclamped (Nat.le_refl _),
    hfits.unclamped hsize, _, _, hfits.append_eq.symm, hfront, ?_, hback, ?_⟩
  · intro tag htag hkind
    obtain ⟨earlier, rfl⟩ := List.head?_eq_some_iff.1 htag
    rw [hraw, List.reverse_cons, List.append_assoc] at h
    exact isTag_behind_text h hkind hk
  · intro tag htag
    obtain ⟨later, rfl⟩ := List.head?_eq_some_iff.1 htag
    rw [hraw] at h
    exact isTag_behind_text h hk
  · exact exists_of_start_ne_zero
  · exact exists_of_stop_ne_zero
  · exact (Text.utf8ByteSize_eq_length fun x hx =>
      utf8Size_of_blank (hfits.start x hx)).trans hfront
  · exact (Text.utf8ByteSize_eq_length fun x hx =>
      utf8Size_of_blank (.inl (hfits.stop x hx))).trans hback

/-- Of a text between two tags that stand alone the middle line is left, also when the delimiters
    hold blanks. -/
theorem cuts_never_overlap_middle_line :
    let opener : Token := ⟨.opener, "a".toList, 1⟩
    let text : Token := ⟨.text, "\r\né\n\t".toList, 1⟩
    let ender : Token := ⟨.ender, "a".toList, 3⟩
    let c : Cut := ⟨2, 1⟩
    scan ⟨" <".toList, "> ".toList⟩ " <#a> \r\né\n\t </a> ".toList = .ok [opener, text, ender] ∧
      text.kind = .text ∧ (noted [opener, text, ender])[1]? = some c ∧ c.Unclamped 5 ∧
      c.Unclamped "\r\né\n\t".utf8ByteSize ∧ (text.cut c).value = "é\n".toList ∧
      ∃ front back, text.value = front ++ (text.cut c).value ++ back ∧ front.length = 2 ∧
        back.length = 1 := by
  intro opener text ender c
  have h : scan ⟨" <".toList, "> ".toList⟩ " <#a> \r\né\n\t </a> ".toList =
      .ok [⟨.opener, "a".toList, 1⟩, ⟨.text, "\r\né\n\t".toList, 1⟩, ⟨.ender, "a".toList, 3⟩] := by
    cbv
  have hc : cutOf [opener] text [ender] = c := by decide
  have hcuts := cuts_never_overlap h
    (show [opener, text, ender] = [opener].reverse ++ text :: [ender] from rfl) rfl
  rw [hc] at hcuts
  obtain ⟨hnoted, -, -, -, -, -, hchars, hbytes, front, back, happend, hfront, -, hback, -⟩ := hcuts
  exact ⟨h, rfl, hnoted, hchars, hbytes, by decide, front, back, happend, hfront, hback⟩

end

end Template

end Mustache
