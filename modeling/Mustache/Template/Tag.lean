import Mustache.Text.Search
import Mustache.Template.Error
import Mustache.Template.Token

/-!
# Reading a tag

A tag is written in one of three *shapes*, told apart by the character after the
opening delimiter (`Shape.of`): in triple braces, as a change of delimiters between
equals signs, or plainly. The shape says where the *content* of the tag starts and
which text, its *closer*, ends it at the first occurrence (`RawTag.read`). What the
content means is decided afterwards (`RawTag.meaning`).

* `RawTag.read_eq`: the source of a tag and what follows it make up the text after the
  opening delimiter;
* `RawTag.length_rest_lt`: a tag with a meaning is not the empty text.
-/

namespace Mustache.Template

/-- The ways to write a tag. -/
inductive Shape where
  /-- In triple braces: a variable that is not escaped. -/
  | triple
  /-- Between equals signs: a change of delimiters. -/
  | delimiterChange
  /-- Any other tag. -/
  | plain
deriving DecidableEq, Repr

namespace Shape

/-- The shape of the tag with the given text after its opening delimiter. -/
def of : List Char → Shape
  | '{' :: _ => .triple
  | '=' :: _ => .delimiterChange
  | _ => .plain

/-- What stands between the opening delimiter and the content. -/
def lead : Shape → List Char
  | .triple => ['{']
  | .delimiterChange => ['=']
  | .plain => []

/-- What ends a tag, given the closing delimiter. -/
def closer (closing : List Char) : Shape → List Char
  | .triple => '}' :: closing
  | .delimiterChange => '=' :: closing
  | .plain => closing

/-- A text starts with the lead of its shape. -/
theorem lead_append_drop (inner : List Char) :
    (of inner).lead ++ inner.drop (of inner).lead.length = inner := by
  unfold of
  split <;> simp [lead]

end Shape

/-- A tag taken apart, and the text that follows it. -/
structure RawTag where
  shape : Shape
  content : List Char
  rest : List Char
deriving DecidableEq, Repr

namespace RawTag

/-- What a tag is written as, after its opening delimiter. -/
def source (closing : List Char) (tag : RawTag) : List Char :=
  tag.shape.lead ++ tag.content ++ tag.shape.closer closing

/-- The tag with the given text after its opening delimiter. -/
def read (closing inner : List Char) : Except Malformed RawTag :=
  let shape := Shape.of inner
  let closer := shape.closer closing
  let cut := Text.splitBefore closer (inner.drop shape.lead.length)
  if closer.isPrefixOf cut.2 then .ok ⟨shape, cut.1, cut.2.drop closer.length⟩
  else .error (.unclosedTag closer)

/-- The key, or other name, that a tag holds. It must not be empty. -/
def keyOf (content : List Char) : Except Malformed (List Char) :=
  let key := Text.trim content
  if key.isEmpty then .error .emptyTag else .ok key

/-- The delimiters that a change of delimiters holds. -/
def delimitersOf (content : List Char) : Except Malformed Delimiters :=
  match Text.words content with
  | [opening, closing] =>
    match Delimiters.fault? ⟨opening, closing⟩ with
    | none => .ok ⟨opening, closing⟩
    | some fault => .error (.badDelimiter fault)
  | _ => .error (.notTwoDelimiters (Text.trim content))

/-- The kind and value of a plain tag, told by the *sigil* that it starts with. -/
def plainMeaning (content : List Char) : Except Malformed (Kind × List Char) :=
  match Text.trim content with
  | '!' :: remark => .ok (.comment, remark)
  | '#' :: name => (keyOf name).map (.opener, ·)
  | '^' :: name => (keyOf name).map (.inverse, ·)
  | '/' :: name => (keyOf name).map (.ender, ·)
  | '>' :: name => (keyOf name).map (.expansion, ·)
  | '&' :: name => (keyOf name).map (.unescaped, ·)
  | '<' :: _ => .error (.unsupportedSigil '<')
  | '$' :: _ => .error (.unsupportedSigil '$')
  | name => (keyOf name).map (.escaped, ·)

/-- The kind and value of a tag, and the delimiters in force after it. -/
def meaning (tag : RawTag) (d : Delimiters) :
    Except Malformed (Kind × List Char × Delimiters) :=
  match tag.shape with
  | .triple => (keyOf tag.content).map (.unescaped, ·, d)
  | .delimiterChange => (delimitersOf tag.content).map (.comment, Text.trim tag.content, ·)
  | .plain => (plainMeaning tag.content).map fun (kind, value) => (kind, value, d)

/-- The source of a tag and what follows it make up the text after the opening
    delimiter. -/
theorem read_eq {closing inner : List Char} {tag : RawTag}
    (h : read closing inner = .ok tag) :
    tag.shape = Shape.of inner ∧ inner = tag.source closing ++ tag.rest := by
  simp only [read] at h
  split at h
  · next hp =>
    injection h with h
    subst h
    refine ⟨rfl, ?_⟩
    have hb := Text.splitBefore_append ((Shape.of inner).closer closing)
      (inner.drop (Shape.of inner).lead.length)
    obtain ⟨t, ht⟩ := List.isPrefixOf_iff_prefix.1 hp
    rw [source, ← ht, List.drop_left, List.append_assoc, List.append_assoc, ht, hb,
      Shape.lead_append_drop]
  · exact absurd h (by simp)

/-- An empty plain tag has no meaning. -/
theorem plainMeaning_nil : plainMeaning [] = .error .emptyTag := rfl

/-- A tag with a meaning is not the empty text. -/
theorem length_rest_lt {closing inner : List Char} {tag : RawTag} {d : Delimiters}
    {m : Kind × List Char × Delimiters} (h : read closing inner = .ok tag)
    (hm : tag.meaning d = .ok m) : tag.rest.length < inner.length := by
  have he := (read_eq h).2
  suffices 0 < tag.shape.lead.length + tag.content.length by
    have := congrArg List.length he
    simp only [source, List.length_append] at this
    omega
  unfold meaning at hm
  split at hm
  · next hs => simp [hs, Shape.lead, Nat.add_comm]
  · next hs => simp [hs, Shape.lead, Nat.add_comm]
  · cases hc : tag.content with
    | nil => rw [hc, plainMeaning_nil] at hm; exact absurd hm (by simp [Except.map])
    | cons c r => rw [List.length_cons]; omega

end RawTag

end Mustache.Template
