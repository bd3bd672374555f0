/-!
# Entries in order of their keys

The *entries* of an object pair keys with values. They are kept in the order of the
keys, by code points, each key once: `insert` puts an entry in its place, or gives a
key that is there already a new value. So the order in which an object was written
down plays no role (`ofList`), and of two values for one key the later counts.

* `get?_insert_self`, `get?_insert_of_ne`: what is found after an insertion;
* `Sorted.insert`: insertion keeps the order;
* `Sorted.ext`: entries in order are determined by what is found for each key.
-/

namespace Mustache

/-- Keys with their values. -/
abbrev Entries (α : Type u) := List (String × α)

namespace Entries

variable {α : Type u}

/-- The keys are in order, each once. -/
def Sorted (entries : Entries α) : Prop :=
  entries.Pairwise fun a b => a.1 < b.1

/-- The value of a key. -/
def get? (entries : Entries α) (key : String) : Option α :=
  entries.lookup key

/-- The entries with a key given a value. -/
def insert (key : String) (value : α) : Entries α → Entries α
  | [] => [(key, value)]
  | entry :: rest =>
    if key < entry.1 then (key, value) :: entry :: rest
    else if key = entry.1 then (key, value) :: rest
    else entry :: insert key value rest

/-- The entries written in a list, of which the last one for a key counts. -/
def ofList (pairs : List (String × α)) : Entries α :=
  pairs.foldl (fun entries pair => entries.insert pair.1 pair.2) []

@[simp] theorem get?_nil (key : String) : get? ([] : Entries α) key = none := rfl

theorem get?_cons (entry : String × α) (rest : Entries α) (key : String) :
    get? (entry :: rest) key = if key = entry.1 then some entry.2 else get? rest key := by
  obtain ⟨first, value⟩ := entry
  by_cases h : key = first
  · simp [get?, h]
  · simp [get?, List.lookup_cons, h, beq_eq_false_iff_ne.2 h]

/-- After an insertion, the key has the value given. -/
@[simp] theorem get?_insert_self (key : String) (value : α) (entries : Entries α) :
    (entries.insert key value).get? key = some value := by
  induction entries with
  | nil => simp [insert, get?_cons]
  | cons entry rest ih =>
    unfold insert
    split
    · simp [get?_cons]
    · split
      · simp [get?_cons]
      · next h => simp [get?_cons, h, ih]

/-- An insertion does not touch other keys. -/
theorem get?_insert_of_ne {key other : String} (h : other ≠ key) (value : α)
    (entries : Entries α) : (entries.insert key value).get? other = entries.get? other := by
  induction entries with
  | nil => simp [insert, get?_cons, h]
  | cons entry rest ih =>
    unfold insert
    split
    · simp [get?_cons, h]
    · split
      · next he => simp [get?_cons, ← he, h]
      · simp [get?_cons, ih]

/-- What is found after an insertion was there before or is the value given. -/
theorem mem_insert {key : String} {value : α} {entries : Entries α} {entry : String × α}
    (h : entry ∈ entries.insert key value) : entry = (key, value) ∨ entry ∈ entries := by
  induction entries with
  | nil => simpa [insert] using h
  | cons first rest ih =>
    unfold insert at h
    split at h
    · simpa using h
    · split at h
      · rcases List.mem_cons.1 h with h | h
        · exact .inl h
        · exact .inr (List.mem_cons_of_mem _ h)
      · rcases List.mem_cons.1 h with h | h
        · exact .inr (h ▸ List.mem_cons_self)
        · exact (ih h).imp id (List.mem_cons_of_mem _)

/-- Insertion keeps the order. -/
theorem Sorted.insert {key : String} {value : α} {entries : Entries α}
    (h : entries.Sorted) : (entries.insert key value).Sorted := by
  induction entries with
  | nil => exact List.pairwise_singleton _ _
  | cons first rest ih =>
    obtain ⟨hf, hr⟩ := List.pairwise_cons.1 h
    unfold Entries.insert
    split
    · next hlt =>
      refine List.pairwise_cons.2 ⟨fun e he => ?_, h⟩
      rcases List.mem_cons.1 he with rfl | he
      · exact hlt
      · exact String.lt_trans hlt (hf e he)
    · split
      · next heq =>
        exact List.pairwise_cons.2 ⟨fun e he => heq ▸ hf e he, hr⟩
      · next hlt hne =>
        refine List.pairwise_cons.2 ⟨fun e he => ?_, ih hr⟩
        rcases mem_insert he with rfl | he
        · exact String.not_le.1 fun hle => hne (String.le_antisymm (String.not_lt.1 hlt) hle).symm
        · exact hf e he

theorem sorted_ofList (pairs : List (String × α)) : (ofList pairs).Sorted :=
  List.foldlRecOn pairs _ List.Pairwise.nil fun _ h _ _ => h.insert

theorem mem_of_mem_ofList {pairs : List (String × α)} :
    ∀ entry ∈ ofList pairs, entry ∈ pairs := by
  refine List.foldlRecOn (motive := fun entries => ∀ entry ∈ entries, entry ∈ pairs) pairs _
    (fun _ h => absurd h List.not_mem_nil) fun entries ih pair hpair entry h => ?_
  rcases mem_insert h with rfl | h
  · exact hpair
  · exact ih entry h

theorem mem_of_get? {entries : Entries α} {key : String} {value : α}
    (h : entries.get? key = some value) : (key, value) ∈ entries := by
  induction entries with
  | nil => cases h
  | cons entry rest ih =>
    rw [get?_cons] at h
    split at h
    · next hk =>
      obtain rfl := Option.some.inj h
      exact hk ▸ List.mem_cons_self
    · exact List.mem_cons_of_mem _ (ih h)

/-- Where the values are changed, so is what is found. -/
theorem get?_map {β : Type v} (f : α → β) (entries : Entries α) (key : String) :
    get? (entries.map (Prod.map id f)) key = (entries.get? key).map f := by
  induction entries with
  | nil => rfl
  | cons entry rest ih =>
    rw [List.map_cons, get?_cons, get?_cons, ih, apply_ite (Option.map f)]
    rfl

theorem get?_eq_none_of_lt {entries : Entries α} {key : String}
    (h : ∀ entry ∈ entries, key < entry.1) : entries.get? key = none := by
  rw [Option.eq_none_iff_forall_ne_some]
  exact fun value hget => String.lt_irrefl key (h _ (mem_of_get? hget))

/-- Entries in order are determined by what is found for each key. -/
theorem Sorted.ext {a b : Entries α} (ha : a.Sorted) (hb : b.Sorted)
    (h : ∀ key, a.get? key = b.get? key) : a = b := by
  induction a generalizing b with
  | nil =>
    cases b with
    | nil => rfl
    | cons y b => simpa [get?_cons] using h y.1
  | cons x a ih =>
    cases b with
    | nil => simpa [get?_cons] using h x.1
    | cons y b =>
      obtain ⟨hx, ha⟩ := List.pairwise_cons.1 ha
      obtain ⟨hy, hb⟩ := List.pairwise_cons.1 hb
      -- Of two first keys, the one that comes before the other would be found on one side only.
      have hkey : x.1 = y.1 := by
        refine String.le_antisymm (String.not_lt.1 fun hlt => ?_) (String.not_lt.1 fun hlt => ?_)
        · have hnone : get? (x :: a) y.1 = none := get?_eq_none_of_lt <|
            List.forall_mem_cons.2 ⟨hlt, fun e he => String.lt_trans hlt (hx e he)⟩
          simpa [hnone, get?_cons] using h y.1
        · have hnone : get? (y :: b) x.1 = none := get?_eq_none_of_lt <|
            List.forall_mem_cons.2 ⟨hlt, fun e he => String.lt_trans hlt (hy e he)⟩
          simpa [hnone, get?_cons] using h x.1
      have hvalue : x.2 = y.2 := by simpa [get?_cons, hkey] using h y.1
      have hrest : a = b := by
        refine ih ha hb fun key => ?_
        by_cases hk : key = y.1
        · rw [hk, get?_eq_none_of_lt (fun e he => hkey ▸ hx e he), get?_eq_none_of_lt hy]
        · simpa [get?_cons, hkey, hk] using h key
      rw [Prod.ext hkey hvalue, hrest]

end Entries

end Mustache
