import Mustache.Template.Tag

/-!
# Readings of a template

A *reading* takes a template apart into texts, which may be empty, with tags between
them (`Reading`). Which readings are proper is said by a grammar that does not mention
how a template is gone through (`Reads`): under the delimiters in force,

* a tag starts where the opening delimiter occurs for the first time in what is left of
  the template (`Text.IsFirst`), and the last text holds none;
* the character after the opening delimiter tells the shape of the tag, which ends where
  its closer occurs for the first time;
* the content of the tag has a meaning (`Means`), which may change the delimiters for
  what follows.

Neither delimiter needs to be told from the text around it in any other way. Still a
template has no more than one reading (`Reads.unique`).
-/

namespace Mustache

namespace Text

/-- The word does not start any earlier in `before ++ word ++ after`. -/
def IsFirst (word before after : List Char) : Prop :=
  ∀ u v, u ++ word ++ v = before ++ word ++ after → before.length ≤ u.length

/-- A word occurs for the first time in one place only. -/
theorem IsFirst.unique {word b a b' a' : List Char} (h : IsFirst word b a)
    (h' : IsFirst word b' a') (he : b ++ word ++ a = b' ++ word ++ a') : b = b' ∧ a = a' := by
  -- Neither place is further on than the other.
  have hlen : b.length = b'.length := Nat.le_antisymm (h _ _ he.symm) (h' _ _ he)
  rw [List.append_assoc, List.append_assoc] at he
  obtain ⟨hb, hr⟩ := List.append_inj he hlen
  exact ⟨hb, List.append_cancel_left hr⟩

/-- A word that occurs at all occurs for the first time somewhere. -/
theorem exists_isFirst {word text : List Char} (h : word <:+: text) :
    ∃ before after, text = before ++ word ++ after ∧ IsFirst word before after := by
  by_cases hp : word <+: text
  · obtain ⟨after, rfl⟩ := hp
    exact ⟨[], after, rfl, fun _ _ _ => Nat.zero_le _⟩
  · induction text with
    | nil => exact absurd (List.infix_nil.1 h ▸ List.nil_prefix) hp
    | cons c rest ih =>
      have hrest : word <:+: rest := (List.infix_cons_iff.1 h).resolve_left hp
      -- The word starts after `c`: at once, or further on.
      obtain ⟨before, after, rfl, hf⟩ : ∃ before after,
          rest = before ++ word ++ after ∧ IsFirst word before after := by
        by_cases hr : word <+: rest
        · obtain ⟨after, rfl⟩ := hr
          exact ⟨[], after, rfl, fun _ _ _ => Nat.zero_le _⟩
        · exact ih hrest hr
      refine ⟨c :: before, after, by simp, fun u v he => ?_⟩
      cases u with
      | nil => exact absurd ⟨v, he⟩ hp
      | cons d u => exact Nat.succ_le_succ (hf u v (List.cons.inj he).2)

theorem splitBefore_of_isFirst {word before after : List Char}
    (h : IsFirst word before after) :
    splitBefore word (before ++ word ++ after) = (before, word ++ after) := by
  induction before with
  | nil =>
    cases word with
    | nil => exact splitBefore_nil_left _
    | cons c word => rw [List.nil_append, List.cons_append, splitBefore_cons]; simp
  | cons c before ih =>
    have hb : IsFirst word before after := fun u v he =>
      Nat.le_of_succ_le_succ (h (c :: u) v (congrArg (c :: ·) he))
    have hp : ¬ word.isPrefixOf (c :: (before ++ word ++ after)) := by
      intro hp
      obtain ⟨v, hv⟩ := List.isPrefixOf_iff_prefix.1 hp
      exact absurd (h [] v hv) (Nat.not_succ_le_zero _)
    rw [List.cons_append, List.cons_append, splitBefore_cons, if_neg hp, ih hb]

theorem splitBefore_of_not_infix {word text : List Char} (h : ¬ word <:+: text) :
    splitBefore word text = (text, []) := by
  induction text with
  | nil => rfl
  | cons c rest ih =>
    have hp : ¬ word.isPrefixOf (c :: rest) := fun hp =>
      h (List.isPrefixOf_iff_prefix.1 hp).isInfix
    rw [splitBefore_cons, if_neg hp, ih fun hr => h (List.infix_cons hr)]

end Text

namespace Delimiters

variable {d : Delimiters}

theorem usable_iff :
    d.Usable ↔ faultOf .opening d.opening = none ∧ faultOf .closing d.closing = none :=
  Option.or_eq_none_iff

theorem Usable.opening_ne_nil (h : d.Usable) : d.opening ≠ [] :=
  (faultOf_eq_none_iff.1 (usable_iff.1 h).1).1

theorem Usable.closing_ne_nil (h : d.Usable) : d.closing ≠ [] :=
  (faultOf_eq_none_iff.1 (usable_iff.1 h).2).1

theorem Usable.isReserved_opening (h : d.Usable) : ∀ c ∈ d.opening, isReserved c = false :=
  (faultOf_eq_none_iff.1 (usable_iff.1 h).1).2

theorem Usable.isReserved_closing (h : d.Usable) : ∀ c ∈ d.closing, isReserved c = false :=
  (faultOf_eq_none_iff.1 (usable_iff.1 h).2).2

end Delimiters

namespace Template

/-- A tag as it is written between the delimiters, without the opening one. -/
def Shape.enclose (closing content : List Char) (shape : Shape) : List Char :=
  shape.lead ++ content ++ shape.closer closing

/-- The kinds of tags that start with a sigil of their own and name a key. -/
def kindOf? : Char → Option Kind
  | '#' => some .opener
  | '^' => some .inverse
  | '/' => some .ender
  | '>' => some .expansion
  | '&' => some .unescaped
  | _ => none

/-- Whether the key of a variable cannot start with a character, because this tells
    another kind of tag, or one that is set aside. -/
def isSigil (c : Char) : Bool :=
  c == '!' || c == '<' || c == '$' || (kindOf? c).isSome

/-- What the content of a tag means, under the delimiters `d`: the kind and value of the
    tag and the delimiters in force after it. -/
inductive Means (d : Delimiters) : Shape → List Char → Kind → List Char → Delimiters → Prop
  | triple {content : List Char} : Text.trim content ≠ [] →
      Means d .triple content .unescaped (Text.trim content) d
  | change {content opening closing : List Char} : Text.words content = [opening, closing] →
      Delimiters.Usable ⟨opening, closing⟩ →
      Means d .delimiterChange content .comment (Text.trim content) ⟨opening, closing⟩
  | remark {content remark : List Char} : Text.trim content = '!' :: remark →
      Means d .plain content .comment remark d
  | named {content name : List Char} {sigil : Char} {kind : Kind} :
      Text.trim content = sigil :: name → kindOf? sigil = some kind → Text.trim name ≠ [] →
      Means d .plain content kind (Text.trim name) d
  | key {content key : List Char} {c : Char} : Text.trim content = c :: key →
      isSigil c = false → Means d .plain content .escaped (c :: key) d

/-- Delimiters that can be used are only changed to such. -/
theorem Means.usable {d d' : Delimiters} {shape : Shape} {content value : List Char}
    {kind : Kind} (h : Means d shape content kind value d') (hd : d.Usable) : d'.Usable := by
  cases h with
  | change _ hu => exact hu
  | triple _ | remark _ | named _ _ _ | key _ _ => exact hd

/-- A tag means neither a text nor an indenter. -/
theorem Means.isTag {d d' : Delimiters} {shape : Shape} {content value : List Char} {kind : Kind}
    (h : Means d shape content kind value d') : kind ≠ .text ∧ kind ≠ .indenter := by
  cases h with
  | triple _ | change _ _ | remark _ | key _ _ => exact ⟨by decide, by decide⟩
  | named _ hk _ =>
    rw [kindOf?.eq_def] at hk
    split at hk <;> cases hk <;> exact ⟨by decide, by decide⟩

/-- A tag of a template: its source, delimiters included, and what it means. -/
structure Tag where
  source : List Char
  kind : Kind
  value : List Char
deriving DecidableEq, Repr

/-- A template taken apart. -/
inductive Reading where
  /-- The text after the last tag. -/
  | last (text : List Char)
  /-- A text, the tag that it leads to, and what follows. -/
  | cons (text : List Char) (tag : Tag) (rest : Reading)
deriving DecidableEq, Repr

namespace Reading

/-- The template that is taken apart. -/
def source : Reading → List Char
  | .last text => text
  | .cons text tag rest => text ++ tag.source ++ rest.source

/-- The token of a text, unless it is empty. -/
def textTokens (line : Nat) (text : List Char) : List Token :=
  if text.isEmpty then [] else [⟨.text, text, line⟩]

/-- The texts and tags as tokens, from a line on. -/
def tokens (line : Nat) : Reading → List Token
  | .last text => textTokens line text
  | .cons text tag rest =>
    let tagLine := line + Text.lineFeeds text
    textTokens line text ++ ⟨tag.kind, tag.value, tagLine⟩ ::
      rest.tokens (tagLine + Text.lineFeeds tag.source)

end Reading

/-- The proper readings of a template that starts with the delimiters `d`. -/
inductive Reads : Delimiters → Reading → Prop
  | last {d : Delimiters} {text : List Char} : ¬ d.opening <:+: text → Reads d (.last text)
  | cons {d d' : Delimiters} {text content value : List Char} {shape : Shape} {kind : Kind}
      {rest : Reading}
      (opens : Text.IsFirst d.opening text (shape.enclose d.closing content ++ rest.source))
      (shaped : Shape.of (shape.enclose d.closing content ++ rest.source) = shape)
      (closes : Text.IsFirst (shape.closer d.closing) content rest.source)
      (means : Means d shape content kind value d')
      (reads : Reads d' rest) :
      Reads d (.cons text ⟨d.opening ++ shape.enclose d.closing content, kind, value⟩ rest)

/-! ## What a tag means is what is read from it -/

theorem map_eq_ok_iff {ε α β : Type} {f : α → β} {x : Except ε α} {b : β} :
    x.map f = .ok b ↔ ∃ a, x = .ok a ∧ f a = b := by
  cases x <;> simp [Except.map]

theorem map_eq_error_iff {ε α β : Type} {f : α → β} {x : Except ε α} {e : ε} :
    x.map f = .error e ↔ x = .error e := by
  cases x <;> simp [Except.map]

theorem bind_eq_ok_iff {ε α β : Type} {x : Except ε α} {f : α → Except ε β} {b : β} :
    x >>= f = .ok b ↔ ∃ a, x = .ok a ∧ f a = .ok b := by
  cases x <;> simp [bind, Except.bind]

theorem bind_eq_error_iff {ε α β : Type} {x : Except ε α} {f : α → Except ε β} {e : ε} :
    x >>= f = .error e ↔ x = .error e ∨ ∃ a, x = .ok a ∧ f a = .error e := by
  cases x <;> simp [bind, Except.bind]

theorem keyOf_eq_ok_iff {content key : List Char} :
    RawTag.keyOf content = .ok key ↔ Text.trim content ≠ [] ∧ Text.trim content = key := by
  rw [RawTag.keyOf]
  cases h : Text.trim content <;> simp

theorem delimitersOf_eq_ok_iff {content : List Char} {d : Delimiters} :
    RawTag.delimitersOf content = .ok d ↔
      Text.words content = [d.opening, d.closing] ∧ d.Usable := by
  obtain ⟨opening, closing⟩ := d
  rw [RawTag.delimitersOf, Delimiters.Usable]
  split
  · next o c hw =>
    cases hf : Delimiters.fault? ⟨o, c⟩ with
    | none => grind
    | some fault => grind
  · next hw => grind

/-- A sigil of its own tells the kind of a tag. -/
theorem plainMeaning_of_kindOf? {content name : List Char} {sigil : Char} {kind : Kind}
    (ht : Text.trim content = sigil :: name) (hk : kindOf? sigil = some kind) :
    RawTag.plainMeaning content = (RawTag.keyOf name).map (kind, ·) := by
  rw [kindOf?.eq_def] at hk
  rw [RawTag.plainMeaning, ht]
  split at hk <;> cases hk <;> rfl

/-- A tag without a sigil is a variable. -/
theorem plainMeaning_of_not_isSigil {content key : List Char} {c : Char}
    (ht : Text.trim content = c :: key) (hc : isSigil c = false) :
    RawTag.plainMeaning content = .ok (.escaped, c :: key) := by
  have hk : RawTag.keyOf (c :: key) = .ok (c :: key) :=
    keyOf_eq_ok_iff.2 (by rw [← ht, Text.trim_trim]; exact ⟨ht ▸ List.cons_ne_nil _ _, rfl⟩)
  rw [RawTag.plainMeaning]
  split
  case h_9 =>
    rw [ht, hk]
    rfl
  all_goals grind [isSigil, kindOf?]

theorem plainMeaning_eq_ok_iff {content value : List Char} {kind : Kind} (d : Delimiters) :
    RawTag.plainMeaning content = .ok (kind, value) ↔ Means d .plain content kind value d := by
  constructor
  · intro h
    cases ht : Text.trim content with
    | nil =>
      rw [RawTag.plainMeaning, ht] at h
      cases h
    | cons c name =>
      cases hk : kindOf? c with
      | some k =>
        rw [plainMeaning_of_kindOf? ht hk] at h
        cases hn : RawTag.keyOf name with
        | error e => rw [hn] at h; cases h
        | ok key =>
          rw [hn] at h
          cases h
          obtain ⟨hne, rfl⟩ := keyOf_eq_ok_iff.1 hn
          exact .named ht hk hne
      | none =>
        cases hs : isSigil c with
        | false =>
          rw [plainMeaning_of_not_isSigil ht hs] at h
          cases h
          exact .key ht hs
        | true =>
          -- The sigil of a remark, or one that is set aside.
          rw [RawTag.plainMeaning] at h
          simp only [isSigil, hk, Option.isSome_none, Bool.or_false, Bool.or_eq_true,
            beq_iff_eq] at hs
          rcases hs with (rfl | rfl) | rfl <;> rw [ht] at h <;> cases h
          exact .remark ht
  · intro h
    generalize hs : Shape.plain = shape at h
    cases h with
    | triple h => cases hs
    | change hw hd => cases hs
    | remark ht =>
      rw [RawTag.plainMeaning, ht]
      rfl
    | named ht hk hn =>
      rw [plainMeaning_of_kindOf? ht hk, keyOf_eq_ok_iff.2 ⟨hn, rfl⟩]
      rfl
    | key ht hc => exact plainMeaning_of_not_isSigil ht hc

/-- What a tag means is what is read from it. -/
theorem meaning_eq_ok_iff (tag : RawTag) {d d' : Delimiters} {kind : Kind}
    {value : List Char} :
    tag.meaning d = .ok (kind, value, d') ↔ Means d tag.shape tag.content kind value d' := by
  obtain ⟨shape, content, rest⟩ := tag
  constructor
  · intro h
    cases shape with
    | triple =>
      obtain ⟨key, hk, he⟩ := map_eq_ok_iff.1 h
      cases he
      obtain ⟨hne, rfl⟩ := keyOf_eq_ok_iff.1 hk
      exact .triple hne
    | delimiterChange =>
      obtain ⟨d'', hd, he⟩ := map_eq_ok_iff.1 h
      cases he
      obtain ⟨hw, hu⟩ := delimitersOf_eq_ok_iff.1 hd
      exact .change hw hu
    | plain =>
      obtain ⟨⟨k, v⟩, hp, he⟩ := map_eq_ok_iff.1 h
      cases he
      exact (plainMeaning_eq_ok_iff d).1 hp
  · intro h
    cases shape with
    | triple =>
      cases h with
      | triple hne => exact map_eq_ok_iff.2 ⟨_, keyOf_eq_ok_iff.2 ⟨hne, rfl⟩, rfl⟩
    | delimiterChange =>
      cases h with
      | change hw hu => exact map_eq_ok_iff.2 ⟨_, delimitersOf_eq_ok_iff.2 ⟨hw, hu⟩, rfl⟩
    | plain =>
      have hd : d' = d := by cases h <;> rfl
      subst hd
      exact map_eq_ok_iff.2 ⟨_, (plainMeaning_eq_ok_iff d').2 h, rfl⟩

/-- A content has one meaning only. -/
theorem Means.unique {d d' d'' : Delimiters} {shape : Shape} {content value value' : List Char}
    {kind kind' : Kind} (h : Means d shape content kind value d')
    (h' : Means d shape content kind' value' d'') :
    kind = kind' ∧ value = value' ∧ d' = d'' := by
  have hm := (meaning_eq_ok_iff ⟨shape, content, []⟩).2 h
  rw [(meaning_eq_ok_iff ⟨shape, content, []⟩).2 h'] at hm
  cases hm
  exact ⟨rfl, rfl, rfl⟩

/-! ## A template has one reading -/

theorem Reading.source_cons (text opening written value : List Char) (kind : Kind)
    (rest : Reading) :
    (Reading.cons text ⟨opening ++ written, kind, value⟩ rest).source =
      text ++ opening ++ (written ++ rest.source) := by
  simp [source]

/-- A template has no more than one proper reading. -/
theorem Reads.unique {d : Delimiters} {r r' : Reading} (h : Reads d r) (h' : Reads d r')
    (he : r.source = r'.source) : r = r' := by
  induction h generalizing r' with
  | last habsent =>
    cases h' with
    | last _ => exact congrArg _ he
    | cons opens shaped closes means reads =>
      rw [Reading.source_cons, Reading.source] at he
      exact absurd ⟨_, _, he.symm⟩ habsent
  | cons opens shaped closes means reads ih =>
    cases h' with
    | last habsent =>
      rw [Reading.source_cons, Reading.source] at he
      exact absurd ⟨_, _, he⟩ habsent
    | cons opens' shaped' closes' means' reads' =>
      -- Both first tags start at the same place, so they are of one shape and end together.
      rw [Reading.source_cons, Reading.source_cons] at he
      obtain ⟨rfl, hw⟩ := opens.unique opens' he
      obtain rfl := shaped.symm.trans (hw ▸ shaped')
      simp only [Shape.enclose, List.append_assoc, List.append_cancel_left_eq] at hw
      simp only [← List.append_assoc] at hw
      obtain ⟨rfl, hs⟩ := closes.unique closes' hw
      obtain ⟨rfl, rfl, rfl⟩ := means.unique means'
      rw [ih reads' hs]

end Template

end Mustache
