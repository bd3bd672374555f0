import Mathlib
import Mustache.Json.Value
import Mustache.Toml.Value

/-!
# Values that hold others

Contexts, JSON values and TOML values are built alike: a value is an object, an array or a single
value (`View`). Steps lead from a value to others inside it (`follow?`). In contexts these are the
steps that templates take.

* `Faithful`: from a value and from its translation, the same steps lead to the same places, where
  there are the same keys and lengths;
* `Ordered`: everywhere in a value, keys are in order, each once.
-/

namespace Mustache

/-- A step into a value. -/
inductive Step where
  /-- To what an object has under a key. -/
  | key (name : String)
  /-- To an item of an array. -/
  | item (index : Nat)

/-- What there is to be seen of a value. -/
inductive View (α : Type) where
  | object (entries : List (String × α))
  | array (items : List α)
  /-- A value that holds no others. -/
  | single

namespace View

variable {α β : Type}

/-- What a step leads to. -/
def step? : Step → View α → Option α
  | .key name, .object entries => Entries.get? entries name
  | .item index, .array items => items[index]?
  | _, _ => none

/-- The keys of an object. -/
def keys? : View α → Option (List String)
  | .object entries => some (entries.map Prod.fst)
  | _ => none

/-- The length of an array. -/
def length? : View α → Option Nat
  | .array items => some items.length
  | _ => none

/-- The view with all values changed. -/
def map (f : α → β) : View α → View β
  | .object entries => .object (entries.map (Prod.map id f))
  | .array items => .array (items.map f)
  | .single => .single

theorem step?_map (f : α → β) (step : Step) (view : View α) :
    (view.map f).step? step = (view.step? step).map f := by
  cases step with
  | key name =>
    cases view with
    | object entries => exact Entries.get?_map f entries name
    | _ => rfl
  | item index =>
    cases view with
    | array items => exact List.getElem?_map
    | _ => rfl

theorem keys?_map (f : α → β) (view : View α) : (view.map f).keys? = view.keys? := by
  cases view with
  | object entries => exact congrArg some List.map_map
  | _ => rfl

theorem length?_map (f : α → β) (view : View α) : (view.map f).length? = view.length? := by
  cases view with
  | array items => exact congrArg some (List.length_map f)
  | _ => rfl

end View

/-- Values that have a view. -/
class Structured (α : Type) where
  view : α → View α

instance : Structured Context where
  view
    | .object entries => .object entries
    | .array items => .array items
    | .scalar _ => .single

instance : Structured Json.Value where
  view
    | .object entries => .object entries
    | .array items => .array items
    | _ => .single

instance : Structured Toml.Value where
  view
    | .table entries => .object entries
    | .array items => .array items
    | _ => .single

namespace Structured

variable {α β : Type} [Structured α] [Structured β]

/-- What steps one after the other lead to. -/
def follow? : List Step → α → Option α
  | [], v => some v
  | step :: path, v => ((view v).step? step).bind (follow? path)

theorem step?_key (c : Context) (name : String) : (view c).step? (.key name) = c.get? name := by
  cases c <;> rfl

theorem step?_item (c : Context) (index : Nat) : (view c).step? (.item index) = c.item? index := by
  cases c <;> rfl

/-! ## Translations -/

/-- A translation into values that are built alike. -/
structure Faithful (f : α → β) : Prop where
  /-- Steps lead somewhere in the translation of a value if they do so in the value, and there to
      the translation of what they lead to in the value. -/
  follow?_map : ∀ path v, follow? path (f v) = (follow? path v).map f
  keys?_map : ∀ v, (view (f v)).keys? = (view v).keys?
  length?_map : ∀ v, (view (f v)).length? = (view v).length?

/-- It is enough that translations are built alike. -/
theorem Faithful.of_view {f : α → β} (h : ∀ v, view (f v) = (view v).map f) : Faithful f where
  follow?_map path v := by
    induction path generalizing v with
    | nil => rfl
    | cons step path ih =>
      rw [follow?, follow?, h, View.step?_map, Option.bind_map, Option.map_bind]
      exact congrArg _ (funext ih)
  keys?_map v := by rw [h, View.keys?_map]
  length?_map v := by rw [h, View.length?_map]

/-! ## Order -/

/-- Everywhere in a value, keys are in order, each once. -/
def Ordered (v : α) : Prop :=
  ∀ path w, follow? path v = some w → ∀ keys ∈ (view w).keys?, keys.Pairwise (· < ·)

theorem ordered_iff {v : α} :
    Ordered v ↔ (∀ keys ∈ (view v).keys?, keys.Pairwise (· < ·)) ∧
      ∀ step w, (view v).step? step = some w → Ordered w := by
  refine ⟨fun h => ⟨h [] v rfl, fun step w hw path x hx => ?_⟩, fun ⟨hkeys, hstep⟩ path x hx => ?_⟩
  · exact h (step :: path) x (by rw [follow?, hw]; exact hx)
  · cases path with
    | nil => exact Option.some.inj hx ▸ hkeys
    | cons step path =>
      obtain ⟨w, hw, hx⟩ := Option.bind_eq_some_iff.1 hx
      exact hstep step w hw path x hx

theorem ordered_of_single {v : α} (h : view v = .single) : Ordered v := by
  rw [ordered_iff, h]
  exact ⟨fun _ hkeys => absurd hkeys (Option.not_mem_none _), fun step _ hw => by
    cases step <;> cases hw⟩

theorem ordered_of_array {v : α} {items : List α} (h : view v = .array items)
    (hitems : ∀ w ∈ items, Ordered w) : Ordered v := by
  rw [ordered_iff, h]
  refine ⟨fun _ hkeys => absurd hkeys (Option.not_mem_none _), fun step w hw => ?_⟩
  cases step with
  | key name => cases hw
  | item index => exact hitems w (List.mem_of_getElem? hw)

theorem ordered_of_object {v : α} {entries : List (String × α)} (h : view v = .object entries)
    (hsorted : Entries.Sorted entries) (hentries : ∀ entry ∈ entries, Ordered entry.2) :
    Ordered v := by
  rw [ordered_iff, h]
  refine ⟨fun _ hkeys => Option.some.inj hkeys ▸ List.pairwise_map.2 hsorted, fun step w hw => ?_⟩
  cases step with
  | key name => exact hentries _ (Entries.mem_of_get? hw)
  | item index => cases hw

theorem Ordered.sorted {v : α} {entries : List (String × α)} (h : Ordered v)
    (hv : view v = .object entries) : Entries.Sorted entries :=
  List.pairwise_map.1 ((ordered_iff.1 h).1 _ (by rw [hv]; rfl))

theorem Ordered.step {v w : α} (h : Ordered v) (step : Step)
    (hw : (view v).step? step = some w) : Ordered w :=
  (ordered_iff.1 h).2 step w hw

end Structured

end Mustache
