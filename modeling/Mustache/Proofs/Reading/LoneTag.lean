import Mustache.Proofs.Reading.Blanks

/-!
# Lines with a single tag

A tag that is a template by itself can be put on a line of its own, with blanks around it. It is
read there as it is alone, and leaves the delimiters as it does alone. If it may stand alone, the
rule on lines leaves nothing of the line but the tag, and an indenter if it is a partial that is
indented.

* `tokenize_lone_tag`: the tokens of the line of a tag;
* `tokenize_line_of_scan`: the same for a tag given by its token.
-/

namespace Mustache

namespace Template

variable {d : Delimiters} {written name : List Char} {kind : Kind} {tag : Tag}

theorem eq_last_of_tokens_eq_nil {r : Reading} {line : Nat} (h : r.tokens line = []) :
    r = .last [] := by
  cases r with
  | last text =>
    rw [Reading.tokens, Reading.textTokens] at h
    split at h
    · next ht => rw [List.isEmpty_iff.1 ht]
    · cases h
  | cons text tag rest => simp [Reading.tokens] at h

/-- A template with a single token that is no text is nothing but a tag. -/
theorem exists_tag_of_scan (hd : d.Usable) (hk : kind ≠ .text)
    (h : scan d written = .ok [⟨kind, name, 1⟩]) :
    ∃ tag : Tag, tag.kind = kind ∧ tag.value = name ∧ tag.source = written ∧
      Reads d (.cons [] tag (.last [])) := by
  obtain ⟨r, hr, rfl, ht⟩ := (scan_eq_ok_iff hd).1 h
  cases r with
  | last text =>
    rw [Reading.tokens, Reading.textTokens] at ht
    split at ht <;> cases ht
    exact absurd rfl hk
  | cons text tag rest =>
    rw [Reading.tokens, Reading.textTokens] at ht
    split at ht
    · next htext =>
      obtain rfl := List.isEmpty_iff.1 htext
      obtain ⟨htag, hrest⟩ := List.cons.inj ht
      obtain rfl := eq_last_of_tokens_eq_nil hrest
      refine ⟨tag, congrArg Token.kind htag, congrArg Token.value htag, ?_, hr⟩
      simp [Reading.source]
    · cases ht

/-- No delimiter starts among blanks and line feeds. -/
theorem not_infix_of_blank (hd : d.Usable) {s : List Char}
    (hs : ∀ c ∈ s, isInlineBlank c = true ∨ c = '\n') : ¬ d.opening <:+: s := by
  intro h
  obtain ⟨c, rest, hc⟩ := List.exists_cons_of_ne_nil hd.opening_ne_nil
  have hm : c ∈ d.opening := hc ▸ List.mem_cons_self
  have hsolid := isSolid_of_not_isReserved (hd.isReserved_opening c hm)
  rcases hs c (h.subset hm) with hb | rfl
  · simp [isSolid, hb] at hsolid
  · exact absurd hm (feed_not_mem_opening hd)

section

variable {d' : Delimiters} {text content rest value : List Char} {shape : Shape}

/-- Where no tag comes after it, a tag leaves the delimiters that it means. -/
theorem delimitersAfter_of_means (hd : d.Usable)
    (opens : Text.IsFirst d.opening text (shape.enclose d.closing content ++ rest))
    (shaped : Shape.of (shape.enclose d.closing content ++ rest) = shape)
    (closes : Text.IsFirst (shape.closer d.closing) content rest)
    (means : Means d shape content kind value d') (hrest : ¬ d'.opening <:+: rest) :
    delimitersAfter d (text ++ (d.opening ++ shape.enclose d.closing content) ++ rest) = d' := by
  have hsource : text ++ (d.opening ++ shape.enclose d.closing content) ++ rest =
      text ++ d.opening ++ (shape.enclose d.closing content ++ rest) := by simp
  rw [delimitersAfter, Scanner.start, hsource,
    Scanner.lastDelimiters_of_isFirst hd.opening_ne_nil opens,
    Scanner.lastDelimiters_of_means shaped closes means,
    Scanner.lastDelimiters_of_not_infix hrest]

end

section

variable {blanks more feed : List Char}

/-- With blanks around it, a tag is read as it is alone. Unless it is a comment, it leaves the
    delimiters as they are. -/
theorem Reads.with_blanks (h : Reads d (.cons [] tag (.last []))) (hd : d.Usable)
    (hb : blanks.all isInlineBlank = true) {ending : List Char}
    (he : ∀ c ∈ ending, isInlineBlank c = true ∨ c = '\n') :
    Reads d (.cons blanks tag (.last ending)) ∧ (tag.kind ≠ .comment →
      delimitersAfter d (blanks ++ tag.source ++ ending) = d) := by
  cases h with
  | @cons _ d' _ content value shape kind _ opens shaped closes means reads =>
    have habsent : ¬ d'.opening <:+: ending := not_infix_of_blank (means.usable hd) he
    have hopens := (opens.append_right ending).append_left (clearOf_opening hb hd)
    have hshaped : Shape.of (shape.enclose d.closing content ++ ending) = shape :=
      shaped_append hd shaped ending
    have hcloses : Text.IsFirst (shape.closer d.closing) content ending :=
      closes.append_right ending
    rw [Reading.source, List.append_nil, List.append_nil] at hopens
    refine ⟨.cons hopens hshaped hcloses means (.last habsent), fun hk => ?_⟩
    rw [delimitersAfter_of_means hd hopens hshaped hcloses means habsent]
    cases means with
    | change _ _ => exact absurd rfl hk
    | triple _ | remark _ | named _ _ _ | key _ _ => rfl

theorem blank_of_line_end (hm : more.all isInlineBlank = true) (hf : feed = [] ∨ feed = ['\n']) :
    ∀ c ∈ more ++ feed, isInlineBlank c = true ∨ c = '\n' := by
  intro c hc
  rcases List.mem_append.1 hc with hc | hc
  · exact .inl (List.all_eq_true.1 hm c hc)
  · rcases hf with rfl | rfl
    · cases hc
    · exact .inr (List.mem_singleton.1 hc)

/-- The line of a tag that may stand alone leaves the tag, and an indenter for the blanks in front
    of a partial. -/
theorem tokenize_lone_tag (h : Reads d (.cons [] tag (.last []))) (hd : d.Usable)
    (hk : tag.kind.mayStandAlone = true) (hb : blanks.all isInlineBlank = true)
    (hm : more.all isInlineBlank = true) (hf : feed = [] ∨ feed = ['\n']) :
    tokenize d (blanks ++ tag.source ++ (more ++ feed)) =
      .ok ((if tag.kind = .expansion ∧ blanks ≠ [] then [⟨.indenter, blanks, 1⟩] else []) ++
        [⟨tag.kind, tag.value, 1⟩]) := by
  refine (tokenize_eq_ok_iff hd).2 ⟨_, (h.with_blanks hd hb (blank_of_line_end hm hf)).1, ?_, ?_⟩
  · simp [Reading.source]
  · have hmore := feed_not_mem_of_all hm
    have hlast : Text.lastLine blanks = blanks := Text.lastLine_of_not_mem (feed_not_mem_of_all hb)
    have hfirst : Text.firstLine (more ++ feed) = more := by
      rw [Text.firstLine_append_of_not_mem hmore]
      rcases hf with rfl | rfl <;> simp [Text.firstLine]
    have halone : Place.StandsAlone ⟨blanks, tag, more ++ feed⟩ :=
      ⟨hk, by rw [hlast]; exact hb, by rw [hfirst]; exact hm⟩
    have hlead : Place.lead ⟨blanks, tag, more ++ feed⟩ = blanks.length := by
      rw [Place.lead, if_pos halone, hlast]
    have htrail : Place.trail ⟨blanks, tag, more ++ feed⟩ = (more ++ feed).length := by
      rw [Place.trail, if_pos halone, hfirst, List.length_append]
      rcases hf with rfl | rfl <;> simp [hmore]
    have htokens : Place.tokens ⟨blanks, tag, more ++ feed⟩ =
        (if tag.kind = .expansion ∧ blanks ≠ [] then [⟨.indenter, blanks, 1⟩] else []) ++
          [⟨tag.kind, tag.value, 1⟩] := by
      simp only [Place.tokens, Place.line, halone, hlast, lineFeeds_of_all hb, true_and]
      split <;> rfl
    simp [Reading.linesFrom, Reading.source, hlead, htrail, htokens, cutTokens, textTokens_nil]

/-- The same for a tag that is given by its token. -/
theorem tokenize_line_of_scan (h : scan d written = .ok [⟨kind, name, 1⟩]) (hd : d.Usable)
    (hk : kind.mayStandAlone = true) (hb : blanks.all isInlineBlank = true)
    (hm : more.all isInlineBlank = true) (hf : feed = [] ∨ feed = ['\n']) :
    tokenize d (blanks ++ written ++ (more ++ feed)) =
      .ok ((if kind = .expansion ∧ blanks ≠ [] then [⟨.indenter, blanks, 1⟩] else []) ++
        [⟨kind, name, 1⟩]) ∧
    (kind ≠ .comment → delimitersAfter d (blanks ++ written ++ (more ++ feed)) = d) := by
  have htext : kind ≠ .text := by
    rintro rfl
    cases hk
  obtain ⟨tag, rfl, rfl, rfl, hr⟩ := exists_tag_of_scan hd htext h
  exact ⟨tokenize_lone_tag hr hd hk hb hm hf,
    (hr.with_blanks hd hb (blank_of_line_end hm hf)).2⟩

end

end Template

end Mustache
