import Mustache.Proofs.Reading.Blanks

/-!
# Where tokens start

Every token of a template starts at a place in the source (`Reading.Starts`): a tag at its opening
delimiter, an indenter at the blanks in front of its partial, and a text where the tag before it
stops taking characters, so behind the blanks and the line feed that a tag takes if it stands
alone. The places are in the order of the tokens, with none of the tags left out
(`Reading.Marks`).

* `exists_marks`: each token is on the line of the place where it starts.
-/

namespace Mustache.Template

/-- The line of a position in a text, the first one being 1. -/
def lineAt (text : List Char) (i : Nat) : Nat := 1 + Text.lineFeeds (text.take i)

theorem lineAt_append (s t : List Char) : lineAt (s ++ t) s.length = 1 + Text.lineFeeds s := by
  rw [lineAt, List.take_left]

/-- A token of a template starts at a position of the source. -/
inductive Reading.Starts (r : Reading) : Token → Nat → Prop
  /-- A text starts with the template, or where a tag stops taking characters. -/
  | text {text : List Char} {line i : Nat} : text <+: r.source.drop i →
      (i = 0 ∨ ∃ p ∈ r.places, i = p.span.stop) → r.Starts ⟨.text, text, line⟩ i
  /-- An indenter starts with the blanks that lead to a partial. -/
  | indenter {blanks : List Char} {line i : Nat} {p : Place} : p ∈ r.places →
      p.tag.kind = .expansion → blanks <+: r.source.drop i → i + blanks.length = p.before.length →
      r.Starts ⟨.indenter, blanks, line⟩ i
  /-- A tag starts with its opening delimiter. -/
  | tag {line : Nat} {p : Place} : p ∈ r.places →
      r.Starts ⟨p.tag.kind, p.tag.value, line⟩ p.before.length

/-- Tokens start at positions from `lo` on, up to `hi`, in order, and each of them is on the line
    where it starts. -/
structure Reading.Marks (r : Reading) (lo hi : Nat) (tokens : List Token) (starts : List Nat) :
    Prop where
  located : List.Forall₂ (fun token i => r.Starts token i ∧ token.line = lineAt r.source i)
    tokens starts
  increasing : starts.Pairwise (· < ·)
  bounds : ∀ i ∈ starts, lo ≤ i ∧ i < hi

namespace Reading.Marks

variable {r : Reading} {lo mid hi : Nat} {s t : List Token} {is js : List Nat}

theorem nil (r : Reading) (lo hi : Nat) : r.Marks lo hi [] [] :=
  ⟨.nil, .nil, by simp⟩

theorem singleton {token : Token} {i : Nat} (h : r.Starts token i)
    (hl : token.line = lineAt r.source i) : r.Marks i (i + 1) [token] [i] :=
  ⟨.cons ⟨h, hl⟩ .nil, List.pairwise_singleton _ _, by simp⟩

theorem mono {lo' hi' : Nat} (h : r.Marks lo hi s is) (hlo : lo' ≤ lo) (hhi : hi ≤ hi') :
    r.Marks lo' hi' s is :=
  ⟨h.located, h.increasing, fun i hi =>
    ⟨hlo.trans (h.bounds i hi).1, (h.bounds i hi).2.trans_le hhi⟩⟩

theorem append (hs : r.Marks lo mid s is) (ht : r.Marks mid hi t js) (hlo : lo ≤ mid)
    (hhi : mid ≤ hi) : r.Marks lo hi (s ++ t) (is ++ js) where
  located := List.rel_append hs.located ht.located
  increasing := List.pairwise_append.2 ⟨hs.increasing, ht.increasing, fun i hi j hj =>
    (hs.bounds i hi).2.trans_le (ht.bounds j hj).1⟩
  bounds i hi := by
    rcases List.mem_append.1 hi with hi | hi
    · exact ⟨(hs.bounds i hi).1, (hs.bounds i hi).2.trans_le hhi⟩
    · exact ⟨hlo.trans (ht.bounds i hi).1, (ht.bounds i hi).2⟩

theorem exists_start {i : Nat} {token : Token} (h : r.Marks lo hi s is)
    (hget : s[i]? = some token) :
    ∃ start, is[i]? = some start ∧ r.Starts token start ∧ token.line = lineAt r.source start := by
  obtain ⟨hlt, rfl⟩ := List.getElem?_eq_some_iff.1 hget
  have hlt' : i < is.length := h.located.length_eq ▸ hlt
  exact ⟨is[i], List.getElem?_eq_getElem hlt', h.located.get hlt hlt'⟩

end Reading.Marks

section

variable {r : Reading} {before text after : List Char} {taken stop : Nat}

/-- What is left of a text starts behind what the tag in front of it takes. -/
theorem exists_marks_cutTokens (hsource : r.source = before ++ text ++ after)
    (hseam : before.length + taken = 0 ∨ ∃ p ∈ r.places, before.length + taken = p.span.stop)
    (hfits : taken + stop ≤ text.length) :
    ∃ starts, r.Marks (before.length + taken) (before.length + text.length - stop)
      (cutTokens before taken stop text) starts := by
  rw [cutTokens]
  by_cases hleft : (text.take (text.length - stop)).drop taken = []
  · rw [hleft, textTokens_nil]
    exact ⟨[], .nil ..⟩
  · rw [textTokens_of_ne_nil hleft]
    have hlt : taken < text.length - stop := by
      by_contra! hle
      exact hleft (List.drop_eq_nil_iff.2 (by rw [List.length_take]; omega))
    have hprefix : (text.take (text.length - stop)).drop taken <+:
        r.source.drop (before.length + taken) := by
      rw [hsource, List.append_assoc, List.drop_length_add_append]
      exact ((List.take_prefix _ _).trans (List.prefix_append _ _)).drop taken
    have hline : 1 + Text.lineFeeds (before ++ text.take taken) =
        lineAt r.source (before.length + taken) := by
      rw [lineAt, hsource, List.append_assoc, List.take_length_add_append,
        List.take_append_of_le_length (by omega)]
    exact ⟨[before.length + taken], .mono (.singleton (.text hprefix hseam) hline) (Nat.le_refl _)
      (by omega)⟩

/-- A tag starts at its place, and the blanks in front of a partial where they lead to it. -/
theorem exists_marks_tokens {p : Place} (hp : p ∈ r.places)
    (hsource : r.source = p.before ++ p.tag.source ++ p.after) :
    ∃ starts, r.Marks (p.before.length - p.lead) (p.before.length + 1) p.tokens starts ∧
      p.before.length ∈ starts := by
  have hline : p.line = lineAt r.source p.before.length := by
    rw [hsource, List.append_assoc, lineAt_append, Place.line]
  have htag := Reading.Marks.singleton (.tag hp) hline
  rw [Place.tokens]
  split
  · next hi =>
    obtain ⟨front, hfront⟩ := Text.lastLine_suffix p.before
    have hlead : p.lead = (Text.lastLine p.before).length := if_pos hi.1
    have hlength := congrArg List.length hfront
    rw [List.length_append] at hlength
    have hpos := List.length_pos_iff.2 hi.2.2
    have hstart : p.before.length - p.lead = front.length := by omega
    have hdrop : r.source = front ++ (Text.lastLine p.before ++ (p.tag.source ++ p.after)) := by
      rw [hsource, ← List.append_assoc front, hfront, List.append_assoc]
    have hfeeds := congrArg Text.lineFeeds hfront
    rw [Text.lineFeeds_append, lineFeeds_of_all hi.1.2.1, Nat.add_zero] at hfeeds
    have hblank : p.line = lineAt r.source front.length := by
      rw [hdrop, lineAt_append, Place.line, hfeeds]
    have hindenter : r.Starts ⟨.indenter, Text.lastLine p.before, p.line⟩ front.length :=
      .indenter hp hi.2.1 (by rw [hdrop, List.drop_left]; exact List.prefix_append _ _)
        (by omega)
    rw [hstart]
    refine ⟨[front.length] ++ [p.before.length], .append
      (.mono (.singleton hindenter hblank) (Nat.le_refl _) (by omega)) htag (by omega) (by omega),
      by simp⟩
  · exact ⟨_, htag.mono (Nat.sub_le _ _) (Nat.le_refl _), List.mem_singleton_self _⟩

/-- The tokens of what follows start where they have their place in the whole. -/
theorem exists_marks_linesFrom {d : Delimiters} {rest : Reading} (hr : Reads d rest) (hd : d.Usable)
    (hsource : r.source = before ++ rest.source)
    (hplaces : ∀ p ∈ rest.placesFrom before, p ∈ r.places)
    (hseam : before.length + taken = 0 ∨ ∃ p ∈ r.places, before.length + taken = p.span.stop)
    (hb : AtSeam before) (ht : Taken before taken rest.source) :
    ∃ starts, r.Marks (before.length + taken) r.source.length (rest.linesFrom before taken) starts ∧
      ∀ p ∈ rest.placesFrom before, p.before.length ∈ starts := by
  induction rest generalizing d before taken with
  | last text =>
    have hsplit : r.source = before ++ text ++ [] := by
      rw [hsource, Reading.source, List.append_nil]
    have hfits : taken + 0 ≤ text.length := taken_le ht
    obtain ⟨starts, hstarts⟩ := exists_marks_cutTokens hsplit hseam hfits
    refine ⟨starts, hstarts.mono (Nat.le_refl _) ?_, fun p hp => absurd hp List.not_mem_nil⟩
    rw [hsource, List.length_append, Nat.sub_zero, Reading.source]
  | cons text tag rest ih =>
    obtain ⟨hs, d', hd', hrest⟩ := hr.sealed hd
    obtain ⟨hp, hlater⟩ := List.forall_mem_cons.1 hplaces
    have hfits := taken_add_lead_le hb hs ht
    have hsplit : r.source = before ++ text ++ tag.source ++ rest.source := by
      rw [hsource, Reading.source]
      simp
    have hbehind : r.source = before ++ text ++ (tag.source ++ rest.source) := by
      rw [hsplit, List.append_assoc]
    obtain ⟨textStarts, htext⟩ := exists_marks_cutTokens hbehind hseam hfits
    obtain ⟨tagStarts, htag, hmem⟩ := exists_marks_tokens hp hsplit
    have htaken : Taken (before ++ text ++ tag.source)
        (Place.trail ⟨before ++ text, tag, rest.source⟩) rest.source :=
      taken_trail hs
    have htrail := taken_le htaken
    obtain ⟨restStarts, hrestStarts, hrestMem⟩ := ih hrest hd' hsplit hlater
      (.inr ⟨_, hp, by simp only [Place.span, List.length_append]⟩) (atSeam_behind hs _) htaken
    have htagPos : 0 < tag.source.length := by
      obtain ⟨c, source, hc, -⟩ := hs.starts
      rw [hc, List.length_cons]
      omega
    have hlength := congrArg List.length hsplit
    simp only [List.length_append] at hlength htag hrestStarts
    refine ⟨textStarts ++ tagStarts ++ restStarts,
      (htext.append htag (by omega) (by omega)).append
        (hrestStarts.mono (by omega) (Nat.le_refl _)) (by omega) (by omega), ?_⟩
    intro p hp
    rcases List.mem_cons.1 hp with rfl | hp
    · exact List.mem_append_left _ (List.mem_append_right _ hmem)
    · exact List.mem_append_right _ (hrestMem p hp)

/-- The tokens of a template start at places in the source, in order. All tags are among them, and
    each token is on the line where it starts. -/
theorem exists_marks {d : Delimiters} (hd : d.Usable) {template : List Char} {tokens : List Token}
    (h : tokenize d template = .ok tokens) :
    ∃ r starts, Reads d r ∧ r.source = template ∧ r.Marks 0 template.length tokens starts ∧
      ∀ p ∈ r.places, p.before.length ∈ starts := by
  obtain ⟨r, hr, rfl, rfl⟩ := (tokenize_eq_ok_iff hd).1 h
  obtain ⟨starts, hmarks, hmem⟩ : ∃ starts, r.Marks 0 r.source.length (r.linesFrom [] 0) starts ∧
      ∀ p ∈ r.placesFrom [], p.before.length ∈ starts :=
    exists_marks_linesFrom hr hd rfl (fun _ hp => hp) (.inl rfl) (.inl rfl) (.inl rfl)
  exact ⟨r, starts, hr, rfl, hmarks, hmem⟩

end

end Mustache.Template
