import Mathlib
import Mustache.Data
import Mustache.Proofs.Conversion.Numbers
import Mustache.Proofs.Conversion.Ordered

/-!
# From data to contexts

A JSON or TOML value and the context that it stands for are built alike (`faithful_toContext`), and
the single values in them correspond (`Denotes`). A whole number of JSON becomes an integer if it
is one of 64 bits. All other numbers become floating-point numbers, but never what is not a number,
which JSON cannot write. TOML can, and a floating-point number there stays the one that it is.

Two values in the two formats may say the same (`SameData`), in whatever order they list the
entries of objects. If what is read has its keys in order, they stand for the same context. What
the text of a date is does not matter.

* `Json.Value.isNaN_of_follow?`, `Toml.Value.follow?_of_float`: the floating-point numbers to be
  found in contexts;
* `SameData.toContext_eq`, `DataFormat.parse_eq_of_sameData`: data in the two formats;
* `contexts_are_faithful_to_data`: all of this.
-/

namespace Mustache

open Structured

namespace Text

theorem int64Of?_eq_some_iff {n : Int} {i : Int64} : int64Of? n = some i ↔ i.toInt = n := by
  rw [int64Of?, Int64.toInt_minValue, Int64.toInt_maxValue]
  constructor
  · intro h
    split at h
    · next hn =>
      obtain rfl := Option.some.inj h
      exact Int64.toInt_ofInt_of_le hn.1 (by omega)
    · cases h
  · rintro rfl
    rw [if_pos ⟨i.le_toInt, i.toInt_le⟩, Int64.ofInt_toInt]

/-- What does not fit into 64 bits does not fit into a mantissa. -/
theorem le_natAbs_of_forall_toInt_ne {n : Int} (h : ∀ i : Int64, i.toInt ≠ n) :
    2 ^ 53 ≤ n.natAbs := by
  by_contra hlt
  exact h (.ofInt n) (Int64.toInt_ofInt_of_le (by omega) (by omega))

end Text

/-! ## JSON -/

namespace Json.Value

theorem toContexts_eq_map (items : List Value) : toContexts items = items.map toContext := by
  induction items with
  | nil => rfl
  | cons v items ih => rw [toContexts, List.map_cons, ih]

theorem toEntries_eq_map (entries : List (String × Value)) :
    toEntries entries = entries.map (Prod.map id toContext) := by
  induction entries with
  | nil => rfl
  | cons entry entries ih =>
    rw [toEntries, List.map_cons, ih]
    rfl

theorem faithful_toContext : Faithful toContext := .of_view fun v => by
  cases v with
  | array items => exact congrArg View.array (toContexts_eq_map items)
  | object entries => exact congrArg View.object (toEntries_eq_map entries)
  | _ => rfl

/-- The single value that a value stands for. -/
inductive Denotes : Value → Scalar → Prop
  | null : Denotes .null .null
  | bool (b : Bool) : Denotes (.bool b) (.bool b)
  | string (s : String) : Denotes (.string s) (.string s)
  /-- A whole number that fits into 64 bits. -/
  | integer {n : Int} {i : Int64} (h : i.toInt = n) : Denotes (.number (.whole n)) (.integer i)
  /-- A whole number that does not. -/
  | beyond {n : Int} (h : ∀ i : Int64, i.toInt ≠ n) :
      Denotes (.number (.whole n)) (.float (Float.ofInt n))
  | real (x : Float) (finite : x.isFinite = true) : Denotes (.number (.real x finite)) (.float x)

theorem toScalar_eq_iff {n : Number} {s : Scalar} : n.toScalar = s ↔ Denotes (.number n) s := by
  cases n with
  | real x finite =>
    refine ⟨fun h => h ▸ .real x finite, fun h => ?_⟩
    cases h
    rfl
  | whole n =>
    rw [Number.toScalar]
    cases hi : Text.int64Of? n with
    | some i =>
      obtain rfl := Text.int64Of?_eq_some_iff.1 hi
      refine ⟨fun h => h ▸ .integer rfl, fun h => ?_⟩
      cases h with
      | integer hj => rw [Int64.toInt_inj.1 hj]
      | beyond hnot => exact absurd rfl (hnot i)
    | none =>
      have hnot : ∀ i : Int64, i.toInt ≠ n := fun i hin => by
        rw [Text.int64Of?_eq_some_iff.2 hin] at hi
        cases hi
      refine ⟨fun h => h ▸ .beyond hnot, fun h => ?_⟩
      cases h with
      | integer hj => exact absurd hj (hnot _)
      | beyond => rfl

theorem toContext_eq_scalar_iff {v : Value} {s : Scalar} :
    v.toContext = .scalar s ↔ v.Denotes s := by
  cases v with
  | number n => rw [← toScalar_eq_iff, toContext, Context.scalar.injEq]
  | _ =>
    refine ⟨fun h => ?_, fun h => ?_⟩
    · cases h <;> constructor
    · cases h <;> rfl

theorem Denotes.isNaN {v : Value} {x : Float} (h : v.Denotes (.float x)) : x.isNaN = false := by
  cases h with
  | beyond hnot => exact Binary.isNaN_ofInt (Text.le_natAbs_of_forall_toInt_ne hnot)
  | real x finite => exact Binary.isNaN_of_isFinite finite

/-- No number in the context of a JSON value is not a number. -/
theorem isNaN_of_follow? {v : Value} {path : List Step} {x : Float}
    (h : follow? path v.toContext = some (.scalar (.float x))) : x.isNaN = false := by
  rw [faithful_toContext.follow?_map, Option.map_eq_some_iff] at h
  obtain ⟨w, -, hw⟩ := h
  exact (toContext_eq_scalar_iff.1 hw).isNaN

theorem Denotes.beq_self {v : Value} {s : Scalar} (h : v.Denotes s) : (s == s) = true := by
  cases s with
  | null => rfl
  | bool b => exact beq_self_eq_true b
  | integer i => exact beq_self_eq_true i
  | float x =>
    have hx := h.isNaN
    simp only [Float.isNaN_eq_decide_eq_nan, decide_eq_false_iff_not] at hx
    exact Float.beq_self_iff.2 hx
  | string s => exact beq_self_eq_true s

mutual
/-- A context that data in JSON stands for holds no value that differs from itself. -/
theorem beq_toContext_self : ∀ v : Value, v.toContext.beq v.toContext = true
  | .null => rfl
  | .bool b => (Denotes.bool b).beq_self
  | .number _ => (toScalar_eq_iff.1 rfl).beq_self
  | .string s => (Denotes.string s).beq_self
  | .array items => beqItems_toContexts_self items
  | .object entries => beqEntries_toEntries_self entries

theorem beqItems_toContexts_self :
    ∀ items : List Value, Context.beqItems (toContexts items) (toContexts items) = true
  | [] => rfl
  | v :: items => by
    rw [toContexts, Context.beqItems, beq_toContext_self v, beqItems_toContexts_self items]
    rfl

theorem beqEntries_toEntries_self : ∀ entries : List (String × Value),
    Context.beqEntries (toEntries entries) (toEntries entries) = true
  | [] => rfl
  | (key, v) :: entries => by
    rw [toEntries, Context.beqEntries, beq_toContext_self v, beqEntries_toEntries_self entries,
      beq_self_eq_true]
    rfl
end

end Json.Value

/-! ## TOML -/

namespace Toml.Value

variable {dateText : Datetime → String}

theorem toContexts_eq_map (items : List Value) :
    toContexts dateText items = items.map (toContext dateText) := by
  induction items with
  | nil => rfl
  | cons v items ih => rw [toContexts, List.map_cons, ih]

theorem toEntries_eq_map (entries : List (String × Value)) :
    toEntries dateText entries = entries.map (Prod.map id (toContext dateText)) := by
  induction entries with
  | nil => rfl
  | cons entry entries ih =>
    rw [toEntries, List.map_cons, ih]
    rfl

theorem faithful_toContext : Faithful (toContext dateText) := .of_view fun v => by
  cases v with
  | array items => exact congrArg View.array (toContexts_eq_map items)
  | table entries => exact congrArg View.object (toEntries_eq_map entries)
  | _ => rfl

variable (dateText) in
/-- The single value that a value stands for. -/
inductive Denotes : Value → Scalar → Prop
  | string (s : String) : Denotes (.string s) (.string s)
  | integer (i : Int64) : Denotes (.integer i) (.integer i)
  | float (x : Float) : Denotes (.float x) (.float x)
  | bool (b : Bool) : Denotes (.bool b) (.bool b)
  | datetime (d : Datetime) : Denotes (.datetime d) (.string (dateText d))

theorem toContext_eq_scalar_iff {v : Value} {s : Scalar} :
    v.toContext dateText = .scalar s ↔ v.Denotes dateText s := by
  constructor
  · intro h
    cases v <;> cases h <;> constructor
  · intro h
    cases h <;> rfl

/-- Every floating-point number in the context of a TOML value is one in the value. -/
theorem follow?_of_float {v : Value} {path : List Step} {x : Float}
    (h : follow? path (v.toContext dateText) = some (.scalar (.float x))) :
    follow? path v = some (.float x) := by
  rw [faithful_toContext.follow?_map, Option.map_eq_some_iff] at h
  obtain ⟨w, hw, hx⟩ := h
  cases toContext_eq_scalar_iff.1 hx
  exact hw

end Toml.Value

/-! ## Both formats -/

/-- A JSON value and a TOML value say the same: they are built alike, and the single values in
    them are the same texts, truth values, integers and finite numbers. -/
inductive SameData : Json.Value → Toml.Value → Prop
  | string (s : String) : SameData (.string s) (.string s)
  | bool (b : Bool) : SameData (.bool b) (.bool b)
  | integer (i : Int64) : SameData (.number (.whole i.toInt)) (.integer i)
  | real (x : Float) (finite : x.isFinite = true) :
      SameData (.number (.real x finite)) (.float x)
  | array {vs : List Json.Value} {ws : List Toml.Value} (hlength : vs.length = ws.length)
      (hitems : ∀ (i : Nat) v w, vs[i]? = some v → ws[i]? = some w → SameData v w) :
      SameData (.array vs) (.array ws)
  /-- The order in which the entries are listed plays no role. -/
  | object {vs : List (String × Json.Value)} {ws : List (String × Toml.Value)}
      (hkeys : ∀ key, (Entries.get? vs key).isSome = (Entries.get? ws key).isSome)
      (hentries : ∀ key v w, Entries.get? vs key = some v → Entries.get? ws key = some w →
        SameData v w) :
      SameData (.object vs) (.table ws)

section

variable {α β : Type} {o : Option α} {p : Option β}

theorem isSome_eq_of_rel {R : α → β → Prop} (h : Option.Rel R o p) : o.isSome = p.isSome := by
  cases h <;> rfl

theorem map_eq_map_of_isSome_eq {γ : Type} {f : α → γ} {g : β → γ} (h : o.isSome = p.isSome)
    (hfg : ∀ a ∈ o, ∀ b ∈ p, f a = g b) : o.map f = p.map g := by
  cases o with
  | none =>
    cases p with
    | none => rfl
    | some b => cases h
  | some a =>
    cases p with
    | none => cases h
    | some b => exact congrArg some (hfg a rfl b rfl)

end

/-- Arrays say the same if their items do, in pairs. -/
theorem SameData.of_items {vs : List Json.Value} {ws : List Toml.Value}
    (h : List.Forall₂ SameData vs ws) : SameData (.array vs) (.array ws) := by
  obtain ⟨hlength, hget⟩ := List.forall₂_iff_get.1 h
  refine .array hlength fun i v w hv hw => ?_
  obtain ⟨hi, rfl⟩ := List.getElem?_eq_some_iff.1 hv
  obtain ⟨hj, rfl⟩ := List.getElem?_eq_some_iff.1 hw
  exact hget i hi hj

/-- Objects say the same if their entries do, in pairs. -/
theorem SameData.of_entries {vs : List (String × Json.Value)} {ws : List (String × Toml.Value)}
    (h : List.Forall₂ (fun v w => v.1 = w.1 ∧ SameData v.2 w.2) vs ws) :
    SameData (.object vs) (.table ws) := by
  have hget (key : String) : Option.Rel SameData (Entries.get? vs key) (Entries.get? ws key) := by
    induction h with
    | nil => exact .none
    | cons hhead _ ih =>
      rw [Entries.get?_cons, Entries.get?_cons, hhead.1]
      split
      · exact .some hhead.2
      · exact ih
  refine .object (fun key => isSome_eq_of_rel (hget key)) fun key v w hv hw => ?_
  have hkey := hget key
  rw [hv, hw] at hkey
  cases hkey with
  | some h => exact h

theorem SameData.toContext_eq {v : Json.Value} {w : Toml.Value} (h : SameData v w)
    (hv : Ordered v) (hw : Ordered w) (dateText : Toml.Datetime → String) :
    v.toContext = w.toContext dateText := by
  induction h with
  | string | bool | real => rfl
  | integer i => exact Json.Value.toContext_eq_scalar_iff.2 (.integer rfl)
  | @array vs ws hlength _ ih =>
    have hitems : vs.map Json.Value.toContext = ws.map (Toml.Value.toContext dateText) := by
      refine List.ext_getElem? fun i => ?_
      have hsome : vs[i]?.isSome = ws[i]?.isSome := by
        rw [Bool.eq_iff_iff, isSome_getElem?, isSome_getElem?, hlength]
      rw [List.getElem?_map, List.getElem?_map]
      refine map_eq_map_of_isSome_eq hsome fun v hi w hj => ih i v w hi hj ?_ ?_
      · exact hv.step (.item i) hi
      · exact hw.step (.item i) hj
    rw [Json.Value.toContext, Toml.Value.toContext, Json.Value.toContexts_eq_map,
      Toml.Value.toContexts_eq_map, hitems]
  | @object vs ws hkeys _ ih =>
    have hentries : vs.map (Prod.map id Json.Value.toContext) =
        ws.map (Prod.map id (Toml.Value.toContext dateText)) := by
      refine Entries.Sorted.ext (List.pairwise_map.2 (hv.sorted rfl))
        (List.pairwise_map.2 (hw.sorted rfl)) fun key => ?_
      rw [Entries.get?_map, Entries.get?_map]
      refine map_eq_map_of_isSome_eq (hkeys key) fun v hi w hj => ih key v w hi hj ?_ ?_
      · exact hv.step (.key key) hi
      · exact hw.step (.key key) hj
    rw [Json.Value.toContext, Toml.Value.toContext, Json.Value.toEntries_eq_map,
      Toml.Value.toEntries_eq_map, hentries]

/-- Two texts that say the same in the two formats give the same data. -/
theorem DataFormat.parse_eq_of_sameData {dialect : Dialect} (hdialect : dialect.InOrder)
    {text text' : String} {v : Json.Value} {entries : Entries Toml.Value}
    (hv : dialect.json text = .ok v) (hw : dialect.toml text' = .ok entries)
    (h : SameData v (.table entries)) (origin : String) :
    json.parse dialect origin text = toml.parse dialect origin text' := by
  have heq : v.toContext = (Toml.Value.table entries).toContext dialect.dateText :=
    h.toContext_eq (hdialect.json hv) (hdialect.toml hw) dialect.dateText
  simp only [parse, hv, hw, Except.map, Except.mapError, heq]

/-- From a context the same steps lead to the same places as from the JSON or TOML value that it
    stands for, whatever the texts of dates are, and the single values there are those that the
    value has. If values in the two formats have their keys in order everywhere and say the same,
    the contexts are equal. -/
theorem contexts_are_faithful_to_data (dateText : Toml.Datetime → String) :
    (Faithful Json.Value.toContext ∧
      (∀ v s, Json.Value.toContext v = .scalar s ↔ v.Denotes s) ∧
      ∀ v path x, follow? path (Json.Value.toContext v) = some (.scalar (.float x)) →
        x.isNaN = false) ∧
    (Faithful (Toml.Value.toContext dateText) ∧
      (∀ v s, Toml.Value.toContext dateText v = .scalar s ↔ v.Denotes dateText s) ∧
      ∀ v path x, follow? path (Toml.Value.toContext dateText v) = some (.scalar (.float x)) →
        follow? path v = some (.float x)) ∧
    (∀ (c : Context) name index, (view c).step? (.key name) = c.get? name ∧
      (view c).step? (.item index) = c.item? index) ∧
    ∀ v w, SameData v w → Ordered v → Ordered w →
      v.toContext = w.toContext dateText ∧ (v.toContext == w.toContext dateText) = true := by
  refine ⟨⟨Json.Value.faithful_toContext, fun v s => Json.Value.toContext_eq_scalar_iff,
      fun v path x h => Json.Value.isNaN_of_follow? h⟩,
    ⟨Toml.Value.faithful_toContext, fun v s => Toml.Value.toContext_eq_scalar_iff,
      fun v path x h => Toml.Value.follow?_of_float h⟩,
    fun c name index => ⟨step?_key c name, step?_item c index⟩, fun v w h hv hw => ?_⟩
  have heq := h.toContext_eq hv hw dateText
  exact ⟨heq, heq ▸ v.beq_toContext_self⟩

/-- Two texts that say the same, a number that is too great for an integer, and one in TOML that is
    not a number. -/
theorem contexts_are_faithful_to_data_both_formats :
    let v : Json.Value := .object [("a", .array [.number (.whole 1)])]
    let entries : Entries Toml.Value := [("a", .array [.integer 1])]
    let great : Json.Value := .array [.number (.whole 9223372036854775808)]
    let odd : Toml.Value := .array [.float Decimal.notANumber]
    Dialect.standard.json "\x7b\"a\":[1]\x7d" = .ok v ∧
      Dialect.standard.toml "a=[1]" = .ok entries ∧
      SameData v (.table entries) ∧ Ordered v ∧ Ordered (Toml.Value.table entries) ∧
      v.toContext = (Toml.Value.table entries).toContext Dialect.standard.dateText ∧
      follow? [.item 0] great.toContext =
        some (.scalar (.float (Float.ofInt 9223372036854775808))) ∧
      (Float.ofInt 9223372036854775808).isNaN = false ∧
      follow? [.item 0] (odd.toContext Dialect.standard.dateText) =
        some (.scalar (.float Decimal.notANumber)) ∧
      follow? [.item 0] odd = some (.float Decimal.notANumber) := by
  intro v entries great odd
  have hjson : Dialect.standard.json "\x7b\"a\":[1]\x7d" = .ok v := by cbv
  have htoml : Dialect.standard.toml "a=[1]" = .ok entries := by cbv
  have hsame : SameData v (.table entries) :=
    .of_entries (.cons ⟨rfl, .of_items (.cons (.integer 1) .nil)⟩ .nil)
  have hgreat : follow? [.item 0] great.toContext =
    some (.scalar (.float (Float.ofInt 9223372036854775808))) := rfl
  have hodd : follow? [.item 0] (odd.toContext Dialect.standard.dateText) =
    some (.scalar (.float Decimal.notANumber)) := rfl
  obtain ⟨⟨-, -, hnumber⟩, ⟨-, -, hfloat⟩, -, hequal⟩ :=
    contexts_are_faithful_to_data Dialect.standard.dateText
  have hv := Dialect.standard_inOrder.json hjson
  have hw := Dialect.standard_inOrder.toml htoml
  exact ⟨hjson, htoml, hsame, hv, hw, (hequal _ _ hsame hv hw).1, hgreat, hnumber _ _ _ hgreat,
    hodd, hfloat _ _ _ hodd⟩

end Mustache
