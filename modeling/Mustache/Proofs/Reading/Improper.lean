import Mathlib
import Mustache.Proofs.Reading

/-!
# The first improper tag

A template that has no proper reading has one up to a tag: the texts and tags in front of it are
proper, and it is not (`FailsAt`). A tag is improper if it is not closed, or if its content means
nothing (`Improper`). Like the proper readings, this is a grammar, which does not say how a
template is gone through.

* `improper_or_exists`: behind an opening delimiter there is an improper tag or a proper one;
* `exists_reads_or_failsAt`: a template has a proper reading or a first improper tag.
-/

namespace Mustache

namespace Template

/-- What is wrong with the tag that has the given text after its opening delimiter. -/
inductive Improper (d : Delimiters) (inner : List Char) : Malformed → Prop
  | unclosed {shape : Shape} : Shape.of inner = shape →
      ¬ shape.closer d.closing <:+: inner.drop shape.lead.length →
      Improper d inner (.unclosedTag (shape.closer d.closing))
  | meaningless {shape : Shape} {content rest : List Char} {cause : Malformed} :
      inner = shape.enclose d.closing content ++ rest → Shape.of inner = shape →
      Text.IsFirst (shape.closer d.closing) content rest →
      RawTag.meaning ⟨shape, content, rest⟩ d = .error cause → Improper d inner cause

/-- The first improper tag of a template that starts with the delimiters `d`: the texts and tags
    in front of it, it and what follows, and what is wrong with it. -/
inductive FailsAt : Delimiters → List Char → List Char → Malformed → Prop
  | here {d : Delimiters} {text inner : List Char} {cause : Malformed} :
      Text.IsFirst d.opening text inner → Improper d inner cause →
      FailsAt d text (d.opening ++ inner) cause
  | behind {d d' : Delimiters} {text content value before after : List Char} {shape : Shape}
      {kind : Kind} {cause : Malformed}
      (opens : Text.IsFirst d.opening text (shape.enclose d.closing content ++ (before ++ after)))
      (shaped : Shape.of (shape.enclose d.closing content ++ (before ++ after)) = shape)
      (closes : Text.IsFirst (shape.closer d.closing) content (before ++ after))
      (means : Means d shape content kind value d')
      (fails : FailsAt d' before after cause) :
      FailsAt d (text ++ d.opening ++ (shape.enclose d.closing content ++ before)) after cause

namespace RawTag

theorem read_of_isFirst {closing content rest : List Char} {shape : Shape}
    (hs : Shape.of (shape.enclose closing content ++ rest) = shape)
    (hf : Text.IsFirst (shape.closer closing) content rest) :
    read closing (shape.enclose closing content ++ rest) = .ok ⟨shape, content, rest⟩ := by
  have hd : (shape.enclose closing content ++ rest).drop shape.lead.length =
      content ++ shape.closer closing ++ rest := by
    simp [Shape.enclose]
  simp only [read, hs, hd, Text.splitBefore_of_isFirst hf]
  rw [if_pos (List.isPrefixOf_iff_prefix.2 (List.prefix_append _ _)), List.drop_left]

/-- What is read of a tag ends at the first closer. -/
theorem isFirst_of_read {closing inner : List Char} {tag : RawTag}
    (h : read closing inner = .ok tag) :
    Text.IsFirst (tag.shape.closer closing) tag.content tag.rest := by
  obtain ⟨shape, content', rest'⟩ := tag
  obtain ⟨hs, he⟩ := read_eq h
  rw [source, List.append_assoc, List.append_assoc] at he
  have hi : shape.closer closing <:+: inner.drop shape.lead.length :=
    ⟨content', rest', by rw [he, List.drop_left, List.append_assoc]⟩
  obtain ⟨content, rest, hc, hf⟩ := Text.exists_isFirst hi
  -- Reading from the place of this first closer gives the tag again.
  have hw : inner = shape.enclose closing content ++ rest := by
    rw [Shape.enclose, List.append_assoc, List.append_assoc, ← List.append_assoc content, ← hc, he,
      List.drop_left]
  rw [hw, read_of_isFirst (hw ▸ hs.symm) hf] at h
  cases h
  exact hf

/-- A tag cannot be read iff its closer does not occur. -/
theorem read_eq_error_iff {closing inner : List Char} {cause : Malformed} :
    read closing inner = .error cause ↔
      ¬ (Shape.of inner).closer closing <:+: inner.drop (Shape.of inner).lead.length ∧
        cause = .unclosedTag ((Shape.of inner).closer closing) := by
  simp only [read]
  by_cases hi : (Shape.of inner).closer closing <:+: inner.drop (Shape.of inner).lead.length
  · obtain ⟨before, after, he, hf⟩ := Text.exists_isFirst hi
    have hp : ((Shape.of inner).closer closing).isPrefixOf
        ((Shape.of inner).closer closing ++ after) := by simp
    rw [he, Text.splitBefore_of_isFirst hf, if_pos hp]
    simp [hi, ← he]
  · have hp : ¬ ((Shape.of inner).closer closing).isPrefixOf [] := fun hp =>
      hi ((List.isPrefixOf_iff_prefix.1 hp).isInfix.trans List.nil_infix)
    rw [Text.splitBefore_of_not_infix hi, if_neg hp]
    simp [hi, eq_comm]

end RawTag

/-- Behind an opening delimiter there is an improper tag or a proper one. -/
theorem improper_or_exists (d : Delimiters) (inner : List Char) :
    (∃ cause, Improper d inner cause) ∨
      ∃ shape content kind value d' rest, inner = Shape.enclose d.closing content shape ++ rest ∧
        Shape.of inner = shape ∧ Text.IsFirst (shape.closer d.closing) content rest ∧
        Means d shape content kind value d' := by
  cases hr : RawTag.read d.closing inner with
  | error cause => exact .inl ⟨_, .unclosed rfl (RawTag.read_eq_error_iff.1 hr).1⟩
  | ok tag =>
    obtain ⟨hs, he⟩ := RawTag.read_eq hr
    have hf := RawTag.isFirst_of_read hr
    cases hm : tag.meaning d with
    | error cause => exact .inl ⟨cause, .meaningless he hs.symm hf hm⟩
    | ok m =>
      exact .inr ⟨tag.shape, tag.content, m.1, m.2.1, m.2.2, tag.rest, he, hs.symm, hf,
        (meaning_eq_ok_iff tag).1 hm⟩

/-- A template has a proper reading or a first improper tag. -/
theorem exists_reads_or_failsAt {d : Delimiters} (hd : d.Usable) (template : List Char) :
    (∃ r, Reads d r ∧ r.source = template) ∨
      ∃ before after cause, template = before ++ after ∧ FailsAt d before after cause := by
  -- By induction on the length of the template: what follows a tag is shorter.
  induction hn : template.length using Nat.strongRecOn generalizing template d with
  | ind n ih =>
    by_cases ho : d.opening <:+: template
    · obtain ⟨text, inner, rfl, opens⟩ := Text.exists_isFirst ho
      rcases improper_or_exists d inner with ⟨cause, improper⟩ | ⟨shape, content, kind, value, d',
        rest, rfl, shaped, closes, means⟩
      · exact .inr ⟨text, _, cause, List.append_assoc .., .here opens improper⟩
      · have hlt : rest.length < n := by
          have := List.length_pos_iff.2 hd.opening_ne_nil
          simp only [List.length_append] at hn
          omega
        rcases ih _ hlt (means.usable hd) rest rfl with ⟨r, reads, rfl⟩ | ⟨before, after, cause,
          rfl, fails⟩
        · exact .inl ⟨_, .cons opens shaped closes means reads, Reading.source_cons ..⟩
        · exact .inr ⟨_, after, cause, by simp, .behind opens shaped closes means fails⟩
    · exact .inl ⟨.last template, .last ho, rfl⟩

end Template

end Mustache
