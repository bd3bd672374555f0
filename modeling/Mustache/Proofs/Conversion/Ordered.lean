import Mathlib
import Mustache.Dialect
import Mustache.Proofs.Conversion.Structured

/-!
# Order in what is read

A dialect may give values that have the keys of all their objects in order (`Dialect.InOrder`), as
the standard one does, whatever JSON or TOML a text holds. For JSON this is seen from how the reader
is put together: what it gives has a property if what its parts give has one (`Gives`). In TOML it
comes about when the value is settled.

* `Json.ordered_of_parse?`, `Toml.ordered_of_parse?`: what the two readers give;
* `Dialect.standard_inOrder`: both together.
-/

namespace Mustache

open Structured

namespace Reader

variable {α β : Type} {p q : Reader α} {P : α → Prop}

/-- Whatever the reader gives has the property. -/
def Gives (P : α → Prop) (p : Reader α) : Prop :=
  ∀ text a rest, p text = some (a, rest) → P a

theorem gives_true (p : Reader α) : p.Gives fun _ => True := fun _ _ _ _ => trivial

theorem gives_pure {a : α} (h : P a) : Gives P (pure a) := fun _ _ _ hp => by
  cases hp
  exact h

theorem Gives.bind {Q : β → Prop} {f : α → Reader β} (h : p.Gives P)
    (hf : ∀ a, P a → (f a).Gives Q) : Gives Q (p >>= f) := fun _ _ _ hb => by
  obtain ⟨⟨a, rest⟩, ha, hb⟩ := Option.bind_eq_some_iff.1 hb
  exact hf a (h _ _ _ ha) _ _ _ hb

/-- What is read first does not matter if the rest gives it anyway. -/
theorem gives_bind {Q : β → Prop} {f : α → Reader β} (hf : ∀ a, (f a).Gives Q) :
    Gives Q (p >>= f) :=
  (gives_true p).bind fun a _ => hf a

theorem Gives.orElse (hp : p.Gives P) (hq : q.Gives P) : Gives P (p <|> q) :=
  fun _ _ _ h => by
  rcases (Option.orElse_eq_some _ _ _).1 h with h | ⟨-, h⟩
  · exact hp _ _ _ h
  · exact hq _ _ _ h

theorem Gives.manyWithin (h : p.Gives P) {bound : List Char} {found : List α} {text : List Char}
    (hfound : ∀ a ∈ found, P a) : ∀ a ∈ (manyWithin p bound found text).1, P a := by
  induction bound generalizing found text with
  | nil => exact fun a ha => hfound a (List.mem_reverse.1 ha)
  | cons c bound ih =>
    rw [Reader.manyWithin]
    split
    · exact fun a ha => hfound a (List.mem_reverse.1 ha)
    · next a rest hp => exact ih (List.forall_mem_cons.2 ⟨h _ _ _ hp, hfound⟩)

theorem Gives.many (h : p.Gives P) : (many p).Gives fun found => ∀ a ∈ found, P a :=
  fun text found rest hm => by
  obtain rfl : (Reader.manyWithin p text [] text).1 = found :=
    congrArg Prod.fst (Option.some.inj hm)
  exact h.manyWithin fun _ ha => absurd ha List.not_mem_nil

theorem Gives.sepBy (h : p.Gives P) (separator : Reader Unit) :
    (sepBy p separator).Gives fun found => ∀ a ∈ found, P a := by
  refine .orElse (h.bind fun first hfirst => ?_) (gives_pure fun _ ha => absurd ha List.not_mem_nil)
  exact (Gives.many (gives_bind fun _ => h)).bind fun others hothers =>
    gives_pure (List.forall_mem_cons.2 ⟨hfirst, hothers⟩)

theorem Gives.of_readAll (h : p.Gives P) {text : String} {a : α} (hr : readAll p text = some a) :
    P a := by
  obtain ⟨⟨b, rest⟩, hb, rfl⟩ := Option.map_eq_some_iff.1 hr
  exact (h.bind fun _ ha => gives_bind fun _ => gives_pure ha) _ _ _ hb

end Reader

namespace Json

open Reader

theorem ordered_single : single.Gives Ordered :=
  .orElse (gives_bind fun _ => gives_pure (ordered_of_single rfl)) <|
  .orElse (gives_bind fun _ => gives_pure (ordered_of_single rfl)) <|
  .orElse (gives_bind fun _ => gives_pure (ordered_of_single rfl)) <|
  .orElse (gives_bind fun _ => gives_pure (ordered_of_single rfl)) <|
    gives_bind fun _ => gives_pure (ordered_of_single rfl)

theorem ordered_array {value : Reader Value} (h : value.Gives Ordered) :
    (array value).Gives Ordered :=
  gives_bind fun _ => gives_bind fun _ => (h.sepBy comma).bind fun _ hitems =>
    gives_bind fun _ => gives_bind fun _ => gives_pure (ordered_of_array rfl hitems)

theorem ordered_object {value : Reader Value} (h : value.Gives Ordered) :
    (object value).Gives Ordered := by
  refine gives_bind fun _ => gives_bind fun _ =>
    (Gives.sepBy (P := fun entry => Ordered entry.2) ?_ comma).bind fun entries hentries => ?_
  · exact gives_bind fun _ => gives_bind fun _ => gives_bind fun _ => gives_bind fun _ =>
      h.bind fun _ hv => gives_pure hv
  · exact gives_bind fun _ => gives_bind fun _ => gives_pure <|
      ordered_of_object rfl (Entries.sorted_ofList entries) fun entry he =>
        hentries entry (Entries.mem_of_mem_ofList entry he)

theorem ordered_value (levels : Nat) : (value levels).Gives Ordered := by
  induction levels with
  | zero => exact ordered_single
  | succ levels ih =>
    refine gives_bind fun next => ?_
    split
    · exact ordered_array ih
    · exact ordered_object ih
    · exact ordered_single

theorem ordered_of_parse? {text : String} {v : Value} (h : Value.parse? text = some v) :
    Ordered v :=
  have hread := (gives_bind fun _ => ordered_value 127).bind fun _ hv =>
    gives_bind fun _ => gives_pure hv
  hread.of_readAll h

end Json

namespace Toml.Value

theorem ordered_of_marked? {v w : Value} (h : v.marked? = some w) : Ordered w := by
  cases v with
  | string s =>
    obtain ⟨d, -, rfl⟩ := Option.map_eq_some_iff.1 h
    exact ordered_of_single rfl
  | _ => cases h

theorem ordered_table_ofList {entries : List (String × Value)}
    (h : ∀ entry ∈ entries, Ordered entry.2) : Ordered (Value.table (Entries.ofList entries)) :=
  ordered_of_object rfl (Entries.sorted_ofList entries) fun entry he =>
    h entry (Entries.mem_of_mem_ofList entry he)

mutual
theorem ordered_of_settle? : ∀ {v w : Value}, v.settle? = some w → Ordered w
  | .string _, _, h | .integer _, _, h | .float _, _, h | .bool _, _, h | .datetime _, _, h => by
    obtain rfl := Option.some.inj h
    exact ordered_of_single rfl
  | .array items, _, h => by
    obtain ⟨settled, hs, rfl⟩ := Option.map_eq_some_iff.1 h
    exact ordered_of_array rfl (ordered_of_settleItems? hs)
  | .table [], _, h => by
    obtain rfl := Option.some.inj h
    exact ordered_of_object rfl List.Pairwise.nil fun _ he => absurd he List.not_mem_nil
  | .table ((key, v) :: rest), w, h => by
    rw [settle?] at h
    split at h
    · exact ordered_of_marked? h
    · obtain ⟨first, hfirst, h⟩ := Option.bind_eq_some_iff.1 h
      obtain ⟨others, hothers, h⟩ := Option.bind_eq_some_iff.1 h
      obtain rfl := Option.some.inj h
      exact ordered_table_ofList (List.forall_mem_cons.2
        ⟨ordered_of_settle? hfirst, ordered_of_settleEntries? hothers⟩)

theorem ordered_of_settleItems? :
    ∀ {items settled : List Value}, settleItems? items = some settled → ∀ v ∈ settled, Ordered v
  | [], _, h => by
    obtain rfl := Option.some.inj h
    exact fun _ hv => absurd hv List.not_mem_nil
  | v :: items, _, h => by
    obtain ⟨first, hfirst, h⟩ := Option.bind_eq_some_iff.1 h
    obtain ⟨others, hothers, h⟩ := Option.bind_eq_some_iff.1 h
    obtain rfl := Option.some.inj h
    exact List.forall_mem_cons.2 ⟨ordered_of_settle? hfirst, ordered_of_settleItems? hothers⟩

theorem ordered_of_settleEntries? : ∀ {entries settled : List (String × Value)},
    settleEntries? entries = some settled → ∀ entry ∈ settled, Ordered entry.2
  | [], _, h => by
    obtain rfl := Option.some.inj h
    exact fun _ he => absurd he List.not_mem_nil
  | (key, v) :: entries, _, h => by
    obtain ⟨first, hfirst, h⟩ := Option.bind_eq_some_iff.1 h
    obtain ⟨others, hothers, h⟩ := Option.bind_eq_some_iff.1 h
    obtain rfl := Option.some.inj h
    exact List.forall_mem_cons.2 ⟨ordered_of_settle? hfirst, ordered_of_settleEntries? hothers⟩
end

end Toml.Value

theorem Toml.ordered_of_parse? {text : String} {entries : Entries Toml.Value}
    (h : Toml.parse? text = some entries) : Ordered (Toml.Value.table entries) := by
  obtain ⟨written, -, h⟩ := Option.bind_eq_some_iff.1 h
  obtain ⟨settled, hs, h⟩ := Option.bind_eq_some_iff.1 h
  obtain rfl := Option.some.inj h
  exact Value.ordered_table_ofList (Value.ordered_of_settleEntries? hs)

namespace Dialect

/-- What is read from texts in the dialect has its keys in order. -/
structure InOrder (dialect : Dialect) : Prop where
  json {text : String} {v : Json.Value} (h : dialect.json text = .ok v) : Ordered v
  toml {text : String} {entries : Entries Toml.Value} (h : dialect.toml text = .ok entries) :
    Ordered (Toml.Value.table entries)

theorem standard_inOrder : standard.InOrder where
  json h := Json.ordered_of_parse? (orRefuse_eq_ok_iff.1 h)
  toml h := Toml.ordered_of_parse? (orRefuse_eq_ok_iff.1 h)

end Dialect

end Mustache
