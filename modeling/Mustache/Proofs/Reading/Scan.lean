import Mustache.Proofs.Reading.Improper
import Mustache.Template.Scanner

/-!
# Scanning finds the reading

The scanner goes through a template once, and never looks back. What it yields are the
tokens of the one proper reading of the template (`tokens_of_reads`), and it stops early
exactly when there is none (`exists_reads`), at the first improper tag (`tokens_of_failsAt`):

* `scan_eq_ok_iff`: scanning is reading;
* `scan_eq_error_iff`: what is wrong with a template is what is wrong with its first improper tag,
  on the line where this starts.
-/

namespace Mustache

namespace Template

namespace Scanner

variable {d : Delimiters} {line : Nat} {text inner : List Char}

/-- The tokens still to come, one step of the scanner at a time. -/
theorem tokens_eq (s : Scanner) :
    s.tokens = match s.next with
      | none => .ok []
      | some (.error e, _) => .error e
      | some (.ok t, s') => s'.tokens.map (t :: ·) := by
  rw [tokens]
  split <;> next h => rw [h]

theorem tokens_done {rest : List Char} : tokens ⟨rest, line, d, .done⟩ = .ok [] := by
  rw [tokens_eq]
  rfl

/-- Without an opening delimiter the rest of the template is text. -/
theorem tokens_of_not_infix (h : ¬ d.opening <:+: text) :
    tokens ⟨text, line, d, .text⟩ = .ok (Reading.textTokens line text) := by
  have hs := Text.splitBefore_of_not_infix h
  cases text with
  | nil => rw [tokens_eq]; rfl
  | cons c text =>
    rw [tokens_eq]
    simp only [next, passText, hs, List.isEmpty_nil, if_true, tokens_done]
    rfl

/-- Up to the first opening delimiter a template is text. -/
theorem tokens_of_isFirst (hd : d.opening ≠ []) (h : Text.IsFirst d.opening text inner) :
    tokens ⟨text ++ d.opening ++ inner, line, d, .text⟩ =
      (tokens ⟨d.opening ++ inner, line + Text.lineFeeds text, d, .tag⟩).map
        (Reading.textTokens line text ++ ·) := by
  have hs := Text.splitBefore_of_isFirst h
  have hne : (d.opening ++ inner).isEmpty = false := by
    cases ho : d.opening with
    | nil => exact absurd ho hd
    | cons c o => rfl
  cases text with
  | nil =>
    -- No text is in front of the tag, and the scanner is at the tag at once.
    have hnil : ∀ x : Except TemplateError (List Token),
        x.map (Reading.textTokens line [] ++ ·) = x := fun x => by cases x <;> rfl
    rw [hnil, tokens_eq, tokens_eq ⟨d.opening ++ inner, _, _, _⟩]
    simp only [next, passText, hs, hne, Bool.false_eq_true, if_false, if_true]
  | cons c text =>
    rw [tokens_eq]
    simp only [next, passText, hs, hne]
    rfl

/-- A tag is read, and the template goes on after it. -/
theorem tokens_of_means {d' : Delimiters} {content rest value : List Char} {shape : Shape}
    {kind : Kind} (hs : Shape.of (shape.enclose d.closing content ++ rest) = shape)
    (hf : Text.IsFirst (shape.closer d.closing) content rest)
    (hm : Means d shape content kind value d') :
    tokens ⟨d.opening ++ (shape.enclose d.closing content ++ rest), line, d, .tag⟩ =
      (tokens ⟨rest, line + Text.lineFeeds (d.opening ++ shape.enclose d.closing content), d',
        .text⟩).map (⟨kind, value, line⟩ :: ·) := by
  rw [tokens_eq]
  simp only [next, passTag, List.drop_left, RawTag.read_of_isFirst hs hf,
    (meaning_eq_ok_iff ⟨shape, content, rest⟩).2 hm]
  rfl

/-- The scanner yields the tokens of a proper reading. -/
theorem tokens_of_reads {r : Reading} (h : Reads d r) (hd : d.Usable) :
    tokens ⟨r.source, line, d, .text⟩ = .ok (r.tokens line) := by
  induction h generalizing line with
  | last habsent => exact tokens_of_not_infix habsent
  | cons opens shaped closes means _ ih =>
    rw [Reading.source_cons, tokens_of_isFirst hd.opening_ne_nil opens,
      tokens_of_means shaped closes means, ih (means.usable hd)]
    rfl

/-- The scanner stops at an improper tag. -/
theorem tokens_of_improper {cause : Malformed} (h : Improper d inner cause) :
    tokens ⟨d.opening ++ inner, line, d, .tag⟩ = .error (.malformed cause line) := by
  rw [tokens_eq]
  simp only [next, passTag, List.drop_left]
  cases h with
  | unclosed hs hi =>
    subst hs
    rw [RawTag.read_eq_error_iff.2 ⟨hi, rfl⟩]
  | meaningless he hs hf hm =>
    subst he
    rw [RawTag.read_of_isFirst hs hf]
    simp only [hm]

/-- The scanner comes to the first improper tag. -/
theorem tokens_of_failsAt {before after : List Char} {cause : Malformed}
    (h : FailsAt d before after cause) (hd : d.Usable) :
    tokens ⟨before ++ after, line, d, .text⟩ =
      .error (.malformed cause (line + Text.lineFeeds before)) := by
  induction h generalizing line with
  | here opens improper =>
    rw [← List.append_assoc, tokens_of_isFirst hd.opening_ne_nil opens,
      tokens_of_improper improper]
    rfl
  | @behind d d' text content value before after shape kind cause opens shaped closes means _ ih =>
    rw [List.append_assoc, List.append_assoc (shape.enclose d.closing content),
      tokens_of_isFirst hd.opening_ne_nil opens, tokens_of_means shaped closes means,
      ih (means.usable hd)]
    simp only [Text.lineFeeds_append, Except.map, Nat.add_assoc]

/-- A template that the scanner gets through has a proper reading. -/
theorem exists_reads {tokens : List Token} (hd : d.Usable)
    (h : Scanner.tokens ⟨text, line, d, .text⟩ = .ok tokens) :
    ∃ r, Reads d r ∧ r.source = text := by
  rcases exists_reads_or_failsAt hd text with hr | ⟨before, after, cause, rfl, hfails⟩
  · exact hr
  · rw [tokens_of_failsAt hfails hd] at h
    cases h

/-- What stops the scanner is the first improper tag. -/
theorem exists_failsAt {e : TemplateError} (hd : d.Usable)
    (h : tokens ⟨text, line, d, .text⟩ = .error e) :
    ∃ before after cause, text = before ++ after ∧ FailsAt d before after cause := by
  rcases exists_reads_or_failsAt hd text with ⟨r, hr, rfl⟩ | hfails
  · rw [tokens_of_reads hr hd] at h
    cases h
  · exact hfails

end Scanner

variable {d : Delimiters}

/-- The tokens of a template are those of its proper reading. -/
theorem scan_eq_ok_iff (hd : d.Usable) {template : List Char} {tokens : List Token} :
    scan d template = .ok tokens ↔
      ∃ r, Reads d r ∧ r.source = template ∧ r.tokens 1 = tokens := by
  constructor
  · intro h
    obtain ⟨r, hr, rfl⟩ := Scanner.exists_reads hd h
    have ht : scan d r.source = .ok (r.tokens 1) := Scanner.tokens_of_reads hr hd
    rw [h] at ht
    exact ⟨r, hr, rfl, (Except.ok.inj ht).symm⟩
  · rintro ⟨r, hr, rfl, rfl⟩
    exact Scanner.tokens_of_reads hr hd

/-- A template is refused for its first improper tag, on the line where this starts. -/
theorem scan_eq_error_iff (hd : d.Usable) {template : List Char} {e : TemplateError} :
    scan d template = .error e ↔
      ∃ before after cause, template = before ++ after ∧ FailsAt d before after cause ∧
        e = .malformed cause (1 + Text.lineFeeds before) := by
  rw [scan, Scanner.start]
  constructor
  · intro h
    obtain ⟨before, after, cause, rfl, hfails⟩ := Scanner.exists_failsAt hd h
    rw [Scanner.tokens_of_failsAt hfails hd] at h
    exact ⟨before, after, cause, rfl, hfails, (Except.error.inj h).symm⟩
  · rintro ⟨before, after, cause, rfl, hfails, rfl⟩
    exact Scanner.tokens_of_failsAt hfails hd

/-- Scanning succeeds iff a template has a proper reading. This is the only one, and the
    tokens are its texts, unless empty, and its tags. -/
theorem scan_reads_uniquely (hd : d.Usable) (template : List Char) :
    (∀ tokens, scan d template = .ok tokens ↔
      ∃ r, Reads d r ∧ r.source = template ∧ r.tokens 1 = tokens) ∧
    ∀ r r', Reads d r → Reads d r' → r.source = template → r'.source = template → r = r' :=
  ⟨fun _ => scan_eq_ok_iff hd, fun _ _ hr hr' hs hs' => hr.unique hr' (hs.trans hs'.symm)⟩

/-- An opening delimiter is found behind a part of one, the closer ends a tag at once, and
    delimiters change with the tag that says so. -/
theorem scan_reads_uniquely_changed_delimiters :
    Delimiters.Usable ⟨"<%".toList, "%>".toList⟩ ∧
    ∃ r, Reads ⟨"<%".toList, "%>".toList⟩ r ∧
      r.source = "a<<%{x}%>><%=| |=%>\n|# y|".toList ∧
      r.tokens 1 = [⟨.text, "a<".toList, 1⟩, ⟨.unescaped, "x".toList, 1⟩, ⟨.text, ">".toList, 1⟩,
        ⟨.comment, "| |".toList, 1⟩, ⟨.text, ['\n'], 1⟩, ⟨.opener, "y".toList, 2⟩] ∧
      ∀ r', Reads ⟨"<%".toList, "%>".toList⟩ r' → r'.source = r.source → r' = r := by
  have hd : Delimiters.Usable ⟨"<%".toList, "%>".toList⟩ := by decide
  obtain ⟨hscan, hunique⟩ := scan_reads_uniquely hd "a<<%{x}%>><%=| |=%>\n|# y|".toList
  obtain ⟨r, hr, hs, ht⟩ := (hscan _).1 (by cbv)
  exact ⟨hd, r, hr, hs, ht, fun r' hr' hs' => hunique r' r hr' hr (hs'.trans hs) hs⟩

end Template

end Mustache
