import Mathlib
import Mustache.Context.Lookup

/-!
# Paths through scopes

A path *leads* from a context to a value if its names are the keys of entries, each one in the
value of the one before (`Context.Leads`). This looks at the characters of the path and at the
entries of objects, and at nothing else: names may be empty, and no name is an entry of an array
or of a single value. In some scopes a path stands for what it leads to from the innermost of
those from which it leads anywhere, all the way.

* `follow?_segments_eq_some_iff`: what is reached along the names on a path;
* `follow?_segments_append`: a path in two parts;
* `scopes_answer_for_whole_paths`: what is found in some scopes, and when nothing is.
-/

namespace Mustache.Context

/-- The names on a path, separated by points, are the keys of entries one inside the other. -/
inductive Leads : List Char → Context → Context → Prop
  | last {name : List Char} {entries : List (String × Context)} {v : Context} :
      '.' ∉ name → Entries.get? entries (String.ofList name) = some v →
      Leads name (.object entries) v
  | more {name path : List Char} {entries : List (String × Context)} {c v : Context} :
      '.' ∉ name → Entries.get? entries (String.ofList name) = some c → Leads path c v →
      Leads (name ++ '.' :: path) (.object entries) v

section

variable {path name : List Char} {c v : Context}

theorem segments_ne_nil (path : List Char) : segments path ≠ [] := by
  simp [segments]

theorem segments_of_not_mem (h : '.' ∉ path) : segments path = [String.ofList path] := by
  rw [segments, List.splitOn_eq_singleton h, List.map_singleton]

theorem segments_append (p q : List Char) :
    segments (p ++ '.' :: q) = segments p ++ segments q := by
  rw [segments, List.splitOn_append_cons_self, List.map_append]
  rfl

theorem follow?_append (names others : List String) (c : Context) :
    follow? (names ++ others) c = (follow? names c).bind (follow? others) := by
  induction names generalizing c with
  | nil => rfl
  | cons name names ih =>
    rw [List.cons_append, follow?, follow?, Option.bind_assoc]
    exact congrArg _ (funext ih)

/-- What a path in two parts stands for in a scope is what the second part stands for in what the
    first one does. -/
theorem follow?_segments_append (p q : List Char) (c : Context) :
    follow? (segments (p ++ '.' :: q)) c =
      (follow? (segments p) c).bind (follow? (segments q)) := by
  rw [segments_append, follow?_append]

theorem follow?_segments_of_not_mem (h : '.' ∉ name) (c : Context) :
    follow? (segments name) c = c.get? (String.ofList name) := by
  rw [segments_of_not_mem h, follow?]
  exact Option.bind_fun_some _

theorem get?_eq_some_iff {key : String} :
    c.get? key = some v ↔ ∃ entries, c = .object entries ∧ Entries.get? entries key = some v := by
  cases c <;> simp [get?]

theorem Leads.follow?_eq (h : Leads path c v) : follow? (segments path) c = some v := by
  induction h with
  | last hn hget => rwa [follow?_segments_of_not_mem hn]
  | more hn hget _ ih =>
    rw [follow?_segments_append, follow?_segments_of_not_mem hn, get?, hget]
    exact ih

theorem leads_of_follow? (h : follow? (segments path) c = some v) : Leads path c v := by
  -- By induction on the length, as the rest of a path is what follows its first point.
  induction hn : path.length using Nat.strongRecOn generalizing path c with
  | ind n ih =>
    subst hn
    by_cases hm : '.' ∈ path
    · obtain ⟨first, rest, rfl, hfirst⟩ := List.eq_append_cons_of_mem hm
      rw [follow?_segments_append, follow?_segments_of_not_mem hfirst] at h
      obtain ⟨d, hd, hrest⟩ := Option.bind_eq_some_iff.1 h
      obtain ⟨entries, rfl, hget⟩ := get?_eq_some_iff.1 hd
      have hlt : rest.length < (first ++ '.' :: rest).length := by
        rw [List.length_append, List.length_cons]
        omega
      exact .more hfirst hget (ih _ hlt hrest rfl)
    · rw [follow?_segments_of_not_mem hm] at h
      obtain ⟨entries, rfl, hget⟩ := get?_eq_some_iff.1 h
      exact .last hm hget

/-- What is reached along the names on a path is what the path leads to. -/
theorem follow?_segments_eq_some_iff :
    follow? (segments path) c = some v ↔ Leads path c v :=
  ⟨leads_of_follow?, Leads.follow?_eq⟩

theorem follow?_segments_eq_none_iff :
    follow? (segments path) c = none ↔ ¬ ∃ v, Leads path c v := by
  simp only [Option.eq_none_iff_forall_ne_some, ne_eq, follow?_segments_eq_some_iff, not_exists]

end

/-- A path stands for what it leads to from the innermost scope from which it leads anywhere, and
    for nothing if there is none. So a scope from which it does not lead all the way does not
    count, wherever else it may lead from there. -/
theorem scopes_answer_for_whole_paths {path : List Char} (hp : path ≠ ['.'])
    (scopes : List Context) :
    (∀ v, resolve scopes path = some v ↔
      ∃ inner scope outer, scopes = inner ++ scope :: outer ∧ Leads path scope v ∧
        ∀ passed ∈ inner, ¬ ∃ w, Leads path passed w) ∧
    (resolve scopes path = none ↔ ∀ scope ∈ scopes, ¬ ∃ v, Leads path scope v) ∧
    (∀ scope, (¬ ∃ v, Leads path scope v) →
      resolve (scope :: scopes) path = resolve scopes path) ∧
    ∀ p q scope, follow? (segments (p ++ '.' :: q)) scope =
      (follow? (segments p) scope).bind (follow? (segments q)) := by
  have hresolve : ∀ scopes, resolve scopes path = scopes.findSome? (follow? (segments path)) :=
    fun scopes => if_neg hp
  refine ⟨fun v => ?_, ?_, fun scope hnot => ?_, follow?_segments_append⟩
  · simp only [hresolve, List.findSome?_eq_some_iff, follow?_segments_eq_some_iff,
      follow?_segments_eq_none_iff]
  · simp only [hresolve, List.findSome?_eq_none_iff, follow?_segments_eq_none_iff]
  · rw [hresolve, hresolve, List.findSome?_cons, follow?_segments_eq_none_iff.2 hnot]

/-- An empty name is the key of an entry, and an object is passed over if it has only the first
    names on a path. -/
theorem scopes_answer_for_whole_paths_empty_name :
    let whole : Context := .object [("a", .object [("", .object [("b", .string "x")])])]
    let broken : Context := .object [("a", .object [("", .object []), ("b", .string "y")])]
    "a..b".toList ≠ ['.'] ∧ resolve [broken, whole] "a..b".toList = some (.string "x") ∧
      (¬ ∃ v, Leads "a..b".toList broken v) ∧
      resolve [broken, whole] "a..b".toList = resolve [whole] "a..b".toList ∧
      follow? (segments ("a.".toList ++ '.' :: "b".toList)) whole =
        (follow? (segments "a.".toList) whole).bind (follow? (segments "b".toList)) := by
  intro whole broken
  have hp : "a..b".toList ≠ ['.'] := by decide
  have hwhole : follow? (segments "a..b".toList) whole = some (.string "x") := by cbv
  have hbroken : ¬ ∃ v, Leads "a..b".toList broken v :=
    follow?_segments_eq_none_iff.1 (by cbv)
  obtain ⟨hfound, -, -, hparts⟩ := scopes_answer_for_whole_paths hp [broken, whole]
  obtain ⟨-, -, hpassed, -⟩ := scopes_answer_for_whole_paths hp [whole]
  refine ⟨hp, (hfound _).2 ⟨[broken], whole, [], rfl, leads_of_follow? hwhole, ?_⟩, hbroken,
    hpassed broken hbroken, hparts _ _ _⟩
  exact List.forall_mem_singleton.2 hbroken

end Mustache.Context
