import Mustache.Proofs.Markup

/-!
# Entities

Escaping goes through a text from left to right. Where the pattern of one of some rules starts,
the first such rule puts something in its place; any other character stays (`substitute`). With
the rules turned around, so that each entity is a pattern, the same procedure takes an escaped
text back to what it was (`unescape`). It never comes to an entity that was there before: the
ampersand of that one has been escaped in its turn.

* `substitute_escapeRules`: the rules change each character by itself;
* `escaping_can_be_undone`: what an escaped text holds, and the way back.
-/

namespace Mustache

/-- A rule of a substitution: what is put in the place of a pattern. Neither is empty. -/
structure Rule where
  pattern : List Char
  replacement : List Char
  pattern_ne_nil : pattern ≠ []
  replacement_ne_nil : replacement ≠ []

/-- The rule for the way back. -/
def Rule.turned (r : Rule) : Rule :=
  ⟨r.replacement, r.pattern, r.replacement_ne_nil, r.pattern_ne_nil⟩

/-- The first rule whose pattern a text starts with. -/
def firstRule? (rules : List Rule) (s : List Char) : Option Rule :=
  rules.find? fun r => r.pattern.isPrefixOf s

/-- A text with the first rule applied whose pattern starts there, wherever one does that is
    come to from left to right. -/
def substitute (rules : List Rule) : List Char → List Char
  | [] => []
  | c :: rest =>
    match firstRule? rules (c :: rest) with
    | some r => r.replacement ++ substitute rules ((c :: rest).drop r.pattern.length)
    | none => c :: substitute rules rest
termination_by s => s.length
decreasing_by
  · have := List.length_pos_iff.2 r.pattern_ne_nil
    simp only [List.length_drop, List.length_cons]
    omega
  · exact Nat.lt_succ_self _

section

variable {rules : List Rule}

/-- A pattern is replaced by the first rule for it. -/
theorem substitute_append {r : Rule} {rest : List Char}
    (h : firstRule? rules (r.pattern ++ rest) = some r) :
    substitute rules (r.pattern ++ rest) = r.replacement ++ substitute rules rest := by
  obtain ⟨c, pattern, hp⟩ := List.exists_cons_of_ne_nil r.pattern_ne_nil
  rw [hp, List.cons_append] at h ⊢
  rw [substitute, h]
  simp only [hp, List.length_cons, List.drop_succ_cons, List.drop_left]

/-- A character stays if no pattern starts with it. -/
theorem substitute_cons {c : Char} (h : ∀ r ∈ rules, r.pattern.head? ≠ some c)
    (rest : List Char) : substitute rules (c :: rest) = c :: substitute rules rest := by
  have hnone : firstRule? rules (c :: rest) = none := by
    refine List.find?_eq_none.2 fun r hr hprefix => h r hr ?_
    obtain ⟨first, pattern, hp⟩ := List.exists_cons_of_ne_nil r.pattern_ne_nil
    rw [hp, List.isPrefixOf_iff_prefix, List.cons_prefix_cons] at hprefix
    rw [hp, List.head?_cons, hprefix.1]
  rw [substitute, hnone]

end

/-! ## Escaping by rules -/

/-- The rules for escaping, in the order in which they are tried. -/
def escapeRules : List Rule :=
  [⟨"&".toList, "&amp;".toList, by decide, by decide⟩,
    ⟨"<".toList, "&lt;".toList, by decide, by decide⟩,
    ⟨">".toList, "&gt;".toList, by decide, by decide⟩,
    ⟨"\\".toList, "&#92;".toList, by decide, by decide⟩,
    ⟨"\"".toList, "&quot;".toList, by decide, by decide⟩]

/-- The rules that take entities back to characters. -/
def entityRules : List Rule :=
  escapeRules.map Rule.turned

/-- A text with the characters that its entities stand for. -/
def unescape (text : String) : String :=
  String.ofList (substitute entityRules text.toList)

/-- A character is escaped by the rule for it, or stays because there is none. In either case the
    rule that puts it back is the first one for what is written. -/
theorem exists_rule_or (c : Char) :
    (∃ r, r.pattern = [c] ∧ r.replacement = escapeChar c ∧
      (∀ rest, firstRule? escapeRules (r.pattern ++ rest) = some r) ∧
      ∀ rest, firstRule? entityRules (r.turned.pattern ++ rest) = some r.turned) ∨
    escapeChar c = [c] ∧ (∀ r ∈ escapeRules, r.pattern.head? ≠ some c) ∧
      ∀ r ∈ entityRules, r.pattern.head? ≠ some c := by
  rw [escapeChar, entityOf?.eq_def]
  split
  · exact .inl ⟨escapeRules[0], rfl, rfl, fun _ => rfl, fun _ => rfl⟩
  · exact .inl ⟨escapeRules[1], rfl, rfl, fun _ => rfl, fun _ => rfl⟩
  · exact .inl ⟨escapeRules[2], rfl, rfl, fun _ => rfl, fun _ => rfl⟩
  · exact .inl ⟨escapeRules[3], rfl, rfl, fun _ => rfl, fun _ => rfl⟩
  · exact .inl ⟨escapeRules[4], rfl, rfl, fun _ => rfl, fun _ => rfl⟩
  · refine .inr ⟨rfl, ?_, ?_⟩ <;> simp_all [escapeRules, entityRules, Rule.turned, eq_comm]

theorem substitute_escapeRules_cons (c : Char) (rest : List Char) :
    substitute escapeRules (c :: rest) = escapeChar c ++ substitute escapeRules rest := by
  rcases exists_rule_or c with ⟨r, hp, hr, hfirst, -⟩ | ⟨he, hnone, -⟩
  · rw [← List.singleton_append, ← hp, substitute_append (hfirst rest), hr]
  · rw [substitute_cons hnone, he, List.singleton_append]

/-- Whatever is written for a character is taken back to it, whatever follows. -/
theorem substitute_entityRules_append (c : Char) (rest : List Char) :
    substitute entityRules (escapeChar c ++ rest) = c :: substitute entityRules rest := by
  rcases exists_rule_or c with ⟨r, hp, hr, -, hfirst⟩ | ⟨he, -, hnone⟩
  · have hback : r.turned.replacement = [c] := hp
    have hturned := substitute_append (hfirst rest)
    rw [hback, List.singleton_append] at hturned
    rw [← hr]
    exact hturned
  · rw [he, List.singleton_append, substitute_cons hnone]

/-- The rules for escaping change each character by itself. -/
theorem substitute_escapeRules (s : List Char) :
    substitute escapeRules s = s.flatMap escapeChar := by
  induction s with
  | nil => rw [substitute, List.flatMap_nil]
  | cons c rest ih => rw [substitute_escapeRules_cons, ih, List.flatMap_cons]

theorem substitute_entityRules (s : List Char) :
    substitute entityRules (s.flatMap escapeChar) = s := by
  induction s with
  | nil => rw [List.flatMap_nil, substitute]
  | cons c rest ih => rw [List.flatMap_cons, substitute_entityRules_append, ih]

theorem unescape_escape (text : String) : unescape (escape text) = text := by
  rw [unescape, toList_escape, substitute_entityRules, String.ofList_toList]

/-! ## Escaped texts -/

open Render in
/-- Texts are escaped piece by piece, by the rules tried in order at each place. An escaped text
    holds no character of markup, each ampersand in it starts an entity, and with its entities
    replaced it is the text that was escaped, so that no two texts are the same escaped. -/
theorem escaping_can_be_undone :
    (∀ s t, escape (s ++ t) = escape s ++ escape t) ∧
      (∀ s, (escape s).toList = substitute escapeRules s.toList ∧
        (∀ ch ∈ markup, ch ∉ (escape s).toList) ∧ EntitiesOnly (escape s).toList ∧
        unescape (escape s) = s) ∧
      Function.Injective escape := by
  refine ⟨escape_append, fun s => ⟨?_, fun ch hch => ?_, ?_, unescape_escape s⟩, ?_⟩
  · rw [toList_escape, substitute_escapeRules]
  · exact (additive_not_mem ch).escape (not_mem_escapeChar hch) s
  · exact additive_entitiesOnly.escape entitiesOnly_escapeChar s
  · exact Function.LeftInverse.injective unescape_escape

open Render in
/-- A text that looks like an entity comes back as it was, also if it is escaped in two pieces. -/
theorem escaping_can_be_undone_lookalike :
    escape "&l" ++ escape "t;<" = "&amp;lt;&lt;" ∧ '<' ∈ markup ∧
      '<' ∉ "&amp;lt;&lt;".toList ∧ EntitiesOnly "&amp;lt;&lt;".toList ∧
      unescape "&amp;lt;&lt;" = "&lt;<" := by
  obtain ⟨happend, htexts, -⟩ := escaping_can_be_undone
  have htext : escape "&lt;<" = "&amp;lt;&lt;" := by cbv
  obtain ⟨-, hnot, hentities, hback⟩ := htexts "&lt;<"
  rw [htext] at hnot hentities hback
  exact ⟨(happend "&l" "t;<").symm.trans htext, by decide, hnot '<' (by decide), hentities, hback⟩

end Mustache
