import Mathlib
import Mustache.Command.Arguments
import Mustache.Data
import Mustache.Proofs.Reading
import Mustache.Proofs.Scopes

/-!
# Partials by their names

The name of a partial is one key of the data, points and all, while a tag that asks for the
partial looks for a path, on which points separate names. The two meet if there is no point in
the name. With a point in it, the partial is put where no path leads, and the tag finds what the
data has at the end of the path (`partial_is_found_iff`).
-/

namespace Mustache

namespace Text

theorem trim_cons {c : Char} (hc : isBlank c = false) (s : List Char) :
    trim (c :: s) = c :: trimEnd s := by
  rw [trim, List.dropWhile_cons_of_neg (by simp [hc]), trimEnd, trimEnd, List.reverse_cons,
    List.dropWhile_append]
  split
  · next h =>
    rw [List.isEmpty_iff.1 h, List.dropWhile_cons_of_neg (by simp [hc])]
    rfl
  · rw [List.reverse_append, List.reverse_singleton, List.singleton_append]

end Text

namespace Context

variable {path : List Char} {name : String} {entries : Entries Context} {value : Context}

/-- The first name on a path with a point in it is shorter than the path. -/
theorem head?_segments_ne (h : '.' ∈ path) :
    (segments path).head? ≠ some (String.ofList path) := by
  obtain ⟨first, rest, rfl, hfirst⟩ := List.eq_append_cons_of_mem h
  rw [segments, List.splitOn_append_cons_self_of_not_mem hfirst, List.map_cons, List.head?_cons,
    ne_eq, Option.some.injEq, String.ofList_inj]
  simp

/-- A path leads past an entry under another name than its first one. -/
theorem follow?_insert_of_ne (h : (segments path).head? ≠ some name) :
    follow? (segments path) (.object (entries.insert name value)) =
      follow? (segments path) (.object entries) := by
  cases hs : segments path with
  | nil => exact absurd hs (segments_ne_nil path)
  | cons first names =>
    rw [hs, List.head?_cons] at h
    have hne : first ≠ name := fun he => h (he ▸ rfl)
    rw [follow?, follow?, get?, get?, Entries.get?_insert_of_ne hne]

theorem resolve_insert_of_ne (hp : path ≠ ['.']) (h : (segments path).head? ≠ some name)
    (scopes : List Context) :
    resolve (scopes ++ [.object (entries.insert name value)]) path =
      resolve (scopes ++ [.object entries]) path := by
  rw [resolve, resolve, if_neg hp, if_neg hp, List.findSome?_append, List.findSome?_append,
    List.findSome?_singleton, List.findSome?_singleton, follow?_insert_of_ne h]

/-- An entry is found under a name that is a path of one name. -/
theorem resolve_insert_self (h : '.' ∉ name.toList) :
    resolve [.object (entries.insert name value)] name.toList = some value := by
  have hp : name.toList ≠ ['.'] := fun he => h (he ▸ List.mem_singleton_self _)
  rw [resolve, if_neg hp, List.findSome?_singleton, segments_of_not_mem h, String.ofList_toList,
    follow?, get?, Entries.get?_insert_self]
  rfl

end Context

namespace Command

open Template

variable {argument name file : String}

/-- The name of a partial is not empty, and there are no blanks around it. -/
theorem name_of_partialOf (h : partialOf argument = .ok (name, file)) :
    name.toList ≠ [] ∧ Text.trim name.toList = name.toList ∧
      Text.trimEnd name.toList = name.toList := by
  simp only [partialOf] at h
  split at h
  · split at h
    · cases h
    · next hne =>
      cases h
      rw [String.toList_ofList]
      exact ⟨by simpa using hne, Text.trim_trim _, Text.trimEnd_trimEnd _⟩
  · cases h

/-- A tag asks for a partial under the name that the command has for it. -/
theorem plainMeaning_of_partialOf (h : partialOf argument = .ok (name, file)) :
    RawTag.plainMeaning ('>' :: name.toList) = .ok (.expansion, name.toList) := by
  obtain ⟨hne, htrim, hend⟩ := name_of_partialOf h
  have hsigil : Text.trim ('>' :: name.toList) = '>' :: name.toList := by
    rw [Text.trim_cons (by decide), hend]
  rw [plainMeaning_of_kindOf? hsigil (by rfl), keyOf_eq_ok_iff.2 ⟨by rwa [htrim], htrim⟩]
  rfl

/-- A tag finds the partial of its name, if there is no point in the name. Otherwise it finds what
    it would find without the partial. What does not start with the name is found as before. -/
theorem partial_is_found_iff (h : partialOf argument = .ok (name, file))
    (entries : Entries Context) (body : String) :
    ∃ root, (Context.object entries).insertPartial name body = .ok root ∧
      RawTag.plainMeaning ('>' :: name.toList) = .ok (.expansion, name.toList) ∧
      (Context.resolve [root] name.toList = some (.string body) ↔
        '.' ∉ name.toList ∨ Context.resolve [.object entries] name.toList = some (.string body)) ∧
      ∀ path, path ≠ ['.'] → (Context.segments path).head? ≠ some name → ∀ scopes,
        Context.resolve (scopes ++ [root]) path =
          Context.resolve (scopes ++ [.object entries]) path := by
  refine ⟨_, rfl, plainMeaning_of_partialOf h, ?_, fun path hp hhead scopes =>
    Context.resolve_insert_of_ne hp hhead scopes⟩
  by_cases hm : '.' ∈ name.toList
  · rw [or_iff_right (not_not_intro hm)]
    by_cases hp : name.toList = ['.']
    · -- A point alone stands for the data as a whole.
      simp [Context.resolve, hp, Context.string]
    · have hhead := Context.head?_segments_ne hm
      rw [String.ofList_toList] at hhead
      rw [← List.nil_append [_], Context.resolve_insert_of_ne hp hhead, List.nil_append]
  · exact iff_of_true (Context.resolve_insert_self hm) (.inl hm)

/-- Blanks around the name are no part of it. -/
theorem partial_is_found_iff_header :
    partialOf " header =parts/header.mustache" = .ok ("header", "parts/header.mustache") ∧
    ∃ root, (Context.object [("title", .string "T")]).insertPartial "header" "H" = .ok root ∧
      Context.resolve [root] "header".toList = some (.string "H") ∧
      Context.resolve [root] "title".toList =
        Context.resolve [.object [("title", .string "T")]] "title".toList := by
  have h : partialOf " header =parts/header.mustache" = .ok ("header", "parts/header.mustache") := by
    cbv
  obtain ⟨root, hroot, -, hfound, hother⟩ :=
    partial_is_found_iff h [("title", .string "T")] "H"
  exact ⟨h, root, hroot, hfound.2 (.inl (by decide)),
    hother "title".toList (by decide) (by decide) []⟩

/-- A partial is taken under a name with a point in it, but no tag finds it there. -/
theorem dotted_partial_is_not_found :
    partialOf "a.b=p.mustache" = .ok ("a.b", "p.mustache") ∧
    ∃ root, (Context.object []).insertPartial "a.b" "body" = .ok root ∧
      Context.resolve [root] "a.b".toList = none :=
  ⟨by cbv, _, rfl, by cbv⟩

end Command

end Mustache
