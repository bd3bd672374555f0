import Mustache.Context.Lookup

/-!
# The width of a context

The *width* of a context bounds the length of every array in it. A section runs through
an array once for each item, so the width of what is in scope bounds how often any
section is run through (`width_resolve_le`, `length_le_of_resolve`).
-/

namespace Mustache.Context

mutual
/-- The greatest length of an array in a context. -/
def width : Context → Nat
  | .object entries => widthEntries entries
  | .array items => max items.length (widthItems items)
  | .scalar _ => 0

/-- The greatest width of some contexts. -/
def widthItems : List Context → Nat
  | [] => 0
  | c :: cs => max (width c) (widthItems cs)

/-- The greatest width of the values of some entries. -/
def widthEntries : List (String × Context) → Nat
  | [] => 0
  | (_, c) :: es => max (width c) (widthEntries es)
end

theorem width_le_widthItems {c : Context} {cs : List Context} (h : c ∈ cs) :
    c.width ≤ widthItems cs := by
  induction cs with
  | nil => exact absurd h List.not_mem_nil
  | cons d ds ih =>
    rw [widthItems]
    rcases List.mem_cons.1 h with rfl | h
    · exact Nat.le_max_left ..
    · exact Nat.le_trans (ih h) (Nat.le_max_right ..)

theorem width_le_widthEntries {key : String} {c : Context} {es : Entries Context}
    (h : es.get? key = some c) : c.width ≤ widthEntries es := by
  induction es with
  | nil => exact absurd h (by simp)
  | cons e es ih =>
    rw [Entries.get?_cons] at h
    rw [widthEntries]
    split at h
    · exact Option.some.inj h ▸ Nat.le_max_left ..
    · exact Nat.le_trans (ih h) (Nat.le_max_right ..)

/-- What is reached from a context is not wider than it. -/
theorem width_follow?_le {names : List String} {c v : Context}
    (h : follow? names c = some v) : v.width ≤ c.width := by
  induction names generalizing c with
  | nil => exact Option.some.inj h ▸ Nat.le_refl _
  | cons name names ih =>
    obtain ⟨d, hd, hv⟩ := Option.bind_eq_some_iff.1 h
    refine Nat.le_trans (ih hv) ?_
    cases c with
    | object es => rw [width]; exact width_le_widthEntries hd
    | array items => exact absurd hd (by simp [get?])
    | scalar value => exact absurd hd (by simp [get?])

/-- What is found in some scopes is not wider than they are. -/
theorem width_resolve_le {scopes : List Context} {path : List Char} {v : Context}
    (h : resolve scopes path = some v) : v.width ≤ widthItems scopes := by
  unfold resolve at h
  split at h
  · exact width_le_widthItems (List.mem_of_mem_head? h)
  · obtain ⟨_, c, _, rfl, hv, _⟩ := List.findSome?_eq_some_iff.1 h
    exact Nat.le_trans (width_follow?_le hv) (width_le_widthItems (by simp))

end Mustache.Context
