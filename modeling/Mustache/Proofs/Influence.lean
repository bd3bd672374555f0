import Mustache.Proofs.Markup

/-!
# What data has an influence

A template only looks at what its tags name. Two objects that differ under some keys are
therefore as good as one (`Context.Alike`) for a path that does not start with such a key:
either is passed over, or gives way to the same values. A point alone may yet put the objects
themselves in scope again, on top of others. So it is not the values in scope that are the same
in two renderings, but all the rest of what the machine works on (`State.Alike`), turn by turn.

* `Context.resolve_alike`: what paths stand for in scopes that are alike;
* `unmentioned_entries_have_no_influence`: entries that no tag names may be changed, or left out;
* `render_eq_of_get?_eq`: of an object, nothing counts but what is found in it.
-/

namespace Mustache

namespace Context

/-- The first name on a path, which a point alone has not, is one of some keys. -/
def Mentions (path : List Char) (keys : List String) : Prop :=
  path ≠ ['.'] ∧ ∃ key ∈ (segments path).head?, key ∈ keys

instance (path : List Char) (keys : List String) : Decidable (Mentions path keys) :=
  inferInstanceAs (Decidable (_ ∧ _))

/-- Two objects have the same entries under all keys but some. -/
def AgreeBut (keys : List String) (entries entries' : Entries Context) : Prop :=
  ∀ name ∉ keys, entries.get? name = entries'.get? name

/-- Contexts that are the same, or two objects that have the same entries under all other keys. -/
inductive Alike (keys : List String) : Context → Context → Prop
  | refl (c : Context) : Alike keys c c
  | objects {entries entries' : List (String × Context)} : AgreeBut keys entries entries' →
      Alike keys (.object entries) (.object entries')

section

variable {keys : List String} {c c' : Context} {scopes scopes' : List Context} {path : List Char}

theorem Alike.text_eq (h : Alike keys c c') : c.text = c'.text := by
  cases h <;> rfl

theorem Alike.truthy_eq (h : Alike keys c c') : c.truthy = c'.truthy := by
  cases h <;> rfl

theorem Alike.get?_eq (h : Alike keys c c') {name : String} (hn : name ∉ keys) :
    c.get? name = c'.get? name := by
  cases h with
  | refl => rfl
  | objects hagree => exact hagree name hn

/-- What is reached along some names, of which the first is not one of the keys. -/
theorem Alike.follow? (h : Alike keys c c') {names : List String}
    (hn : ∀ name ∈ names.head?, name ∉ keys) :
    Option.Rel (Alike keys) (follow? names c) (follow? names c') := by
  cases names with
  | nil => exact .some h
  | cons name names =>
    rw [Context.follow?, Context.follow?, h.get?_eq (hn name rfl)]
    cases (c'.get? name).bind (Context.follow? names) with
    | none => exact .none
    | some v => exact .some (.refl v)

theorem findSome?_alike {f g : Context → Option Context}
    (hfg : ∀ c c', Alike keys c c' → Option.Rel (Alike keys) (f c) (g c'))
    (h : List.Forall₂ (Alike keys) scopes scopes') :
    Option.Rel (Alike keys) (scopes.findSome? f) (scopes'.findSome? g) := by
  induction h with
  | nil => exact .none
  | @cons c c' scopes scopes' hc _ ih =>
    have hrel := hfg c c' hc
    rw [List.findSome?_cons, List.findSome?_cons]
    generalize f c = v, g c' = v' at hrel
    cases hrel with
    | none => exact ih
    | some hv => exact .some hv

/-- In scopes that are alike, a path that does not start with such a key stands for contexts that
    are alike, or is not found in either. -/
theorem resolve_alike (h : List.Forall₂ (Alike keys) scopes scopes')
    (hm : ¬ Mentions path keys) :
    Option.Rel (Alike keys) (resolve scopes path) (resolve scopes' path) := by
  rw [resolve, resolve]
  split
  · cases h with
    | nil => exact .none
    | cons hc _ => exact .some hc
  · next hne =>
    have hspared : ∀ name ∈ (segments path).head?, name ∉ keys :=
      fun name hhead hk => hm ⟨hne, name, hhead, hk⟩
    exact findSome?_alike (fun _ _ hc => hc.follow? hspared) h

theorem resolveText_eq_of_alike (h : List.Forall₂ (Alike keys) scopes scopes')
    (hm : ¬ Mentions path keys) : resolveText scopes path = resolveText scopes' path := by
  have hrel := resolve_alike h hm
  rw [resolveText, resolveText]
  generalize resolve scopes path = v, resolve scopes' path = v' at hrel
  cases hrel with
  | none => rfl
  | some hv => exact hv.text_eq

theorem any_truthy_eq_of_alike (h : List.Forall₂ (Alike keys) scopes scopes')
    (hm : ¬ Mentions path keys) :
    (resolve scopes path).any (·.truthy) = (resolve scopes' path).any (·.truthy) := by
  have hrel := resolve_alike h hm
  generalize resolve scopes path = v, resolve scopes' path = v' at hrel
  cases hrel with
  | none => rfl
  | some hv => exact hv.truthy_eq

end

end Context

/-- Whether something is looked up at a token of this kind. -/
def Template.Kind.looksUp : Template.Kind → Bool
  | .escaped | .unescaped | .opener | .inverse | .expansion => true
  | .text | .comment | .ender | .indenter => false

namespace Render

open Template

/-! ## Results that match -/

/-- Two results are the same error, or values that are related. -/
inductive Matched {ε α β : Type} (R : α → β → Prop) :
    Except ε α → Except ε β → Prop
  | error (e : ε) : Matched R (.error e) (.error e)
  | ok {a : α} {b : β} : R a b → Matched R (.ok a) (.ok b)

theorem Matched.refl {ε α : Type} (x : Except ε α) : Matched (· = ·) x x := by
  cases x with
  | error e => exact .error e
  | ok a => exact .ok rfl

theorem Matched.bind {ε α β γ δ : Type} {R : α → β → Prop} {S : γ → δ → Prop}
    {x : Except ε α} {y : Except ε β} {f : α → Except ε γ} {g : β → Except ε δ}
    (h : Matched R x y) (hfg : ∀ a b, R a b → Matched S (f a) (g b)) :
    Matched S (x >>= f) (y >>= g) := by
  cases h with
  | error e => exact .error e
  | ok hab => exact hfg _ _ hab

/-! ## States that are alike -/

/-- Two states are the same, but for scopes that are alike. -/
inductive State.Alike (keys : List String) (s : State) : State → Prop
  | intro {scopes : List Context} : List.Forall₂ (Context.Alike keys) s.scopes scopes →
      Alike keys s { s with scopes }

/-- Nothing is looked up under the keys. -/
def Spares (keys : List String) (token : Token) : Prop :=
  token.kind.looksUp = true → ¬ Context.Mentions token.value keys

instance (keys : List String) (token : Token) : Decidable (Spares keys token) :=
  inferInstanceAs (Decidable (_ → _))

section

variable {settings : Settings} {expansion : Expansion} {tokens : Array Token} {keys : List String}
  {s s' : State} {token : Token}

theorem State.Alike.write (h : State.Alike keys s s') (text : String) :
    State.Alike keys (s.write text) (s'.write text) := by
  cases h with
  | intro hscopes => exact .intro hscopes

theorem State.Alike.indent (h : State.Alike keys s s') (text : List Char) :
    State.Alike keys (s.indent text) (s'.indent text) := by
  cases h with
  | intro hscopes =>
    rw [State.indent, State.indent]
    split
    · exact .intro hscopes
    · exact .intro hscopes

theorem State.Alike.skip (h : State.Alike keys s s') :
    Matched (State.Alike keys) (s.skip tokens token) (s'.skip tokens token) := by
  cases h with
  | intro hscopes =>
    rw [State.skip, State.skip]
    cases Sections.closing? tokens s.cursor with
    | none => exact .error _
    | some i => exact .ok (.intro hscopes)

theorem State.Alike.openSection (h : State.Alike keys s s')
    (hm : ¬ Context.Mentions token.value keys) :
    Matched (State.Alike keys) (s.openSection tokens token) (s'.openSection tokens token) := by
  have hskip : Matched (State.Alike keys) (s.skip tokens token) (s'.skip tokens token) := h.skip
  cases h with
  | @intro scopes hscopes =>
    have hrel := Context.resolve_alike hscopes hm
    rw [State.openSection, State.openSection]
    generalize Context.resolve s.scopes token.value = v, Context.resolve scopes token.value = v'
      at hrel
    cases hrel with
    | none => exact hskip
    | @some c _ hv =>
      cases hv with
      | objects hagree => exact .ok (.intro (.cons (.objects hagree) hscopes))
      | refl =>
        cases c with
        | object entries => exact .ok (.intro (.cons (.refl _) hscopes))
        | array items =>
          cases items with
          | nil => exact hskip
          | cons first others => exact .ok (.intro (.cons (.refl _) hscopes))
        | scalar value =>
          dsimp only
          split
          · exact .ok (.intro hscopes)
          · exact hskip

theorem State.Alike.openInverse (h : State.Alike keys s s')
    (hm : ¬ Context.Mentions token.value keys) :
    Matched (State.Alike keys) (s.openInverse tokens token) (s'.openInverse tokens token) := by
  have hskip : Matched (State.Alike keys) (s.skip tokens token) (s'.skip tokens token) := h.skip
  cases h with
  | @intro scopes hscopes =>
    rw [State.openInverse, State.openInverse, Context.any_truthy_eq_of_alike hscopes hm]
    split
    · exact hskip
    · exact .ok (.intro hscopes)

theorem forall₂_tail {R : Context → Context → Prop} {scopes scopes' : List Context}
    (h : List.Forall₂ R scopes scopes') : List.Forall₂ R scopes.tail scopes'.tail := by
  cases h with
  | nil => exact .nil
  | cons _ h => exact h

theorem State.Alike.close (h : State.Alike keys s s') :
    Matched (State.Alike keys) (s.close token) (s'.close token) := by
  cases h with
  | @intro scopes hscopes =>
    have htail := forall₂_tail hscopes
    rw [State.close, State.close]
    dsimp only
    cases s.opened with
    | nil => exact .error _
    | cons o outer =>
      obtain ⟨name, frame⟩ := o
      dsimp only
      split
      · exact .error _
      · cases frame with
        | pass => exact .ok (.intro hscopes)
        | scope => exact .ok (.intro htail)
        | loop items start remaining =>
          dsimp only
          cases items[items.size - (remaining - 1)]? with
          | none => exact .ok (.intro htail)
          | some item => exact .ok (.intro (.cons (.refl _) htail))

/-- A step in which nothing is looked up under the keys keeps states alike. -/
theorem State.Alike.step (h : State.Alike keys s s') (hm : Spares keys token)
    (hk : token.kind ≠ .expansion) :
    Matched (State.Alike keys) (step settings expansion tokens s token)
      (step settings expansion tokens s' token) := by
  have htext : token.kind.looksUp = true →
      Context.resolveText s.scopes token.value = Context.resolveText s'.scopes token.value := by
    intro hup
    cases h with
    | intro hscopes => exact Context.resolveText_eq_of_alike hscopes (hm hup)
  rw [Render.step, Render.step]
  cases hkind : token.kind with
  | text => exact .ok (h.write _)
  | comment => exact .ok (h.write _)
  | escaped | unescaped =>
    rw [htext (by rw [hkind, Kind.looksUp])]
    exact .ok (h.write _)
  | opener => exact h.openSection (hm (by rw [hkind, Kind.looksUp]))
  | inverse => exact h.openInverse (hm (by rw [hkind, Kind.looksUp]))
  | ender => exact h.close
  | expansion => exact absurd hkind hk
  | indenter => exact .ok (h.indent _)

end

/-! ## Layers that are alike -/

/-- Two layers are over the same tokens, with states that are alike. -/
inductive Layer.Alike (keys : List String) (layer : Layer) : Layer → Prop
  | intro {state : State} : State.Alike keys layer.state state →
      Layer.Alike keys layer { layer with state }

/-- All layers are alike. -/
def Layers.Alike (keys : List String) (l l' : Layers) : Prop :=
  List.Forall₂ (Layer.Alike keys) (l.top :: l.below) (l'.top :: l'.below)

section

variable {settings : Settings} {keys : List String} {token : Token}

namespace Layer

variable {layer layer' : Layer}

theorem start_matched {scopes scopes' : List Context}
    (h : List.Forall₂ (Context.Alike keys) scopes scopes') (depth : Nat) (template : List Char) :
    Matched (Layer.Alike keys) (start settings depth template scopes)
      (start settings depth template scopes') := by
  rw [start, start]
  refine (Matched.refl _).bind fun tokens _ htokens => ?_
  subst htokens
  exact (Matched.refl _).bind fun _ _ _ => .ok (.intro (.intro h))

/-- The body of a partial is the same if its name does not start with one of the keys. -/
theorem Alike.expand (h : Layer.Alike keys layer layer')
    (hm : ¬ Context.Mentions token.value keys) :
    Matched (Layer.Alike keys) (layer.expand settings token) (layer'.expand settings token) := by
  obtain ⟨⟨hscopes⟩⟩ := h
  rw [Layer.expand, Layer.expand]
  dsimp only
  rw [Context.resolveText_eq_of_alike hscopes hm]
  split
  · exact start_matched hscopes _ _
  · exact .error _

theorem Alike.resume (h : Layer.Alike keys layer layer') (output : String) :
    Layer.Alike keys (layer.resume output) (layer'.resume output) := by
  obtain ⟨⟨hscopes⟩⟩ := h
  exact .intro (.intro hscopes)

end Layer

namespace Layers

variable {l l' : Layers}

/-- A turn in which nothing is looked up under the keys keeps layers alike. -/
theorem Alike.next (h : Layers.Alike keys l l')
    (hm : ∀ token ∈ l.top.tokens, Spares keys token) :
    Matched (Sum.LiftRel (· = ·) (Layers.Alike keys)) (l.next settings) (l'.next settings) := by
  obtain ⟨top, below⟩ := l
  obtain ⟨top', below'⟩ := l'
  rw [Layers.Alike, List.forall₂_cons] at h
  obtain ⟨htop, hbelow⟩ := h
  obtain ⟨⟨hscopes⟩⟩ := id htop
  rw [Layers.next, Layers.next]
  dsimp only
  cases hget : top.tokens[top.state.cursor]? with
  | none =>
    cases hbelow with
    | nil => exact .ok (.inl rfl)
    | cons hwaiting hrest => exact .ok (.inr (.cons (hwaiting.resume _) hrest))
  | some token =>
    have hspares : Spares keys token := hm token (Array.mem_of_getElem? hget)
    dsimp only
    split
    · next hk =>
      refine (htop.expand (hspares (by rw [hk, Kind.looksUp]))).bind fun _ _ hbody => ?_
      exact .ok (.inr (.cons hbody (.cons htop hbelow)))
    · next hk =>
      refine ((State.Alike.intro hscopes).step hspares hk).bind fun _ _ hstate => ?_
      obtain ⟨hscopes⟩ := hstate
      exact .ok (.inr (.cons (.intro (.intro hscopes)) hbelow))

/-- Layers that are alike come to the same if nothing is looked up under the keys. -/
theorem Alike.result_eq (h : Layers.Alike keys l l')
    (hm : ∀ later, Leads settings l later → ∀ token ∈ later.top.tokens, Spares keys token) :
    l.result settings = l'.result settings := by
  induction l using (wellFounded_after settings).induction generalizing l' with
  | _ l ih =>
    have hnext : Matched (Sum.LiftRel (· = ·) (Layers.Alike keys)) (l.next settings)
        (l'.next settings) := h.next (hm l .refl)
    rw [result_eq_next settings l, result_eq_next settings l']
    generalize hturn : l.next settings = turn, l'.next settings = turn' at hnext
    cases hnext with
    | error e => rfl
    | ok hrel =>
      cases hrel with
      | inl heq => exact congrArg _ heq
      | inr hlater =>
        exact ih _ hturn hlater fun last hlast => hm last (.head hturn hlast)

end Layers

end

/-! ## Renderings -/

/-- Data that is alike is as good for a template in which nothing is looked up under the keys. -/
theorem render_eq_of_alike {settings : Settings} {template : String} {keys : List String}
    {data data' : Context} (h : Context.Alike keys data data')
    (hm : ∀ token, Involves settings template data token → Spares keys token) :
    render settings template data = render settings template data' := by
  have hstart : Matched (Layer.Alike keys) (Layer.start settings 0 template.toList [data])
      (Layer.start settings 0 template.toList [data']) :=
    Layer.start_matched (.cons h .nil) 0 template.toList
  rw [render, render, renderAt_eq_result, renderAt_eq_result]
  generalize hfirst : Layer.start settings 0 template.toList [data] = first,
    Layer.start settings 0 template.toList [data'] = first' at hstart
  cases hstart with
  | error e => rfl
  | @ok first first' hlayer =>
    show first.result settings = first'.result settings
    rw [← Layers.result_of_nil, ← Layers.result_of_nil]
    refine Layers.Alike.result_eq (.cons hlayer .nil) fun later hleads token htoken => ?_
    exact hm token ⟨first, later, later.top, hfirst, hleads, List.mem_cons_self, htoken⟩

/-- Objects in which the same is found under every key have the same renderings. -/
theorem render_eq_of_get?_eq (settings : Settings) (template : String)
    {entries entries' : Entries Context} (h : ∀ name, entries.get? name = entries'.get? name) :
    render settings template (.object entries) = render settings template (.object entries') := by
  have halike : Context.Alike [] (.object entries) (.object entries') :=
    .objects fun name _ => h name
  exact render_eq_of_alike halike fun _ _ _ ⟨_, _, _, hkey⟩ => List.not_mem_nil hkey

/-- If no tag of a template, nor of the partials that are expanded in it, has a path that starts
    with one of some keys, the entries under these keys have no influence: with other values
    there, or none, there is the same output or the same error. -/
theorem unmentioned_entries_have_no_influence {settings : Settings} {template : String}
    {keys : List String} {entries entries' : List (String × Context)}
    (h : Context.AgreeBut keys entries entries')
    (hm : ∀ token, Involves settings template (.object entries) token → Spares keys token) :
    render settings template (.object entries) = render settings template (.object entries') :=
  render_eq_of_alike (.objects h) hm

/-- The data is in scope again in a section of a partial. -/
theorem unmentioned_entries_have_no_influence_root_in_scope :
    let settings : Settings := ⟨⟨"<%".toList, "%>".toList⟩, 1, true⟩
    let entries : List (String × Context) :=
      [("p", .string "<%#.%><%x%><%/.%>"), ("x", .string "a")]
    let entries' : List (String × Context) := Entries.insert "k" (.string "b") entries
    Context.AgreeBut ["k"] entries entries' ∧
    (∀ token, Involves settings "<%>p%>" (.object entries) token → Spares ["k"] token) ∧
    render settings "<%>p%>" (.object entries) = .ok "a" ∧
    render settings "<%>p%>" (.object entries') = .ok "a" := by
  intro settings entries entries'
  let root : Context := .object entries
  let page : Layer := ⟨0, #[⟨.expansion, "p".toList, 1⟩], .start [root]⟩
  let tokens : Array Token :=
    #[⟨.opener, ".".toList, 1⟩, ⟨.escaped, "x".toList, 1⟩, ⟨.ender, ".".toList, 1⟩]
  let body (state : State) : Layers := ⟨⟨1, tokens, state⟩, [page]⟩
  let opened : State := ⟨1, [root, root], [⟨".".toList, .scope⟩], none, ""⟩
  let last : State := ⟨3, [root], [], none, "a"⟩
  have hstart : Layer.start settings 0 "<%>p%>".toList [root] = .ok page := by cbv
  have hfirst : Layers.next settings ⟨page, []⟩ = .ok (.inr (body (.start [root]))) := by cbv
  have hsecond : (body (.start [root])).next settings = .ok (.inr (body opened)) := by cbv
  have hthird : (body opened).next settings = .ok (.inr (body (opened.write "a"))) := by cbv
  have hfourth : (body (opened.write "a")).next settings = .ok (.inr (body last)) := by cbv
  have hfifth : (body last).next settings = .ok (.inr ⟨page.resume "a", []⟩) := by cbv
  have hlast : Layers.next settings ⟨page.resume "a", []⟩ = .ok (.inl "a") := by cbv
  have hleads : ∀ l, Layers.Leads settings ⟨page, []⟩ l → l = ⟨page, []⟩ ∨
      l ∈ [.start [root], opened, opened.write "a", last].map body ∨
      l = ⟨page.resume "a", []⟩ := by
    intro l h
    induction h with
    | refl => exact .inl rfl
    | tail _ hnext ih =>
      simp only [List.map_cons, List.map_nil, List.mem_cons, List.not_mem_nil, or_false] at ih ⊢
      rcases ih with rfl | (rfl | rfl | rfl | rfl) | rfl
      · cases hfirst.symm.trans hnext
        exact .inr (.inl (.inl rfl))
      · cases hsecond.symm.trans hnext
        exact .inr (.inl (.inr (.inl rfl)))
      · cases hthird.symm.trans hnext
        exact .inr (.inl (.inr (.inr (.inl rfl))))
      · cases hfourth.symm.trans hnext
        exact .inr (.inl (.inr (.inr (.inr rfl))))
      · cases hfifth.symm.trans hnext
        exact .inr (.inr rfl)
      · cases hlast.symm.trans hnext
  have hspares : ∀ token, Involves settings "<%>p%>" root token → Spares ["k"] token := by
    rintro token ⟨first, l, layer, h, hl, hm, ht⟩
    cases hstart.symm.trans h
    have htokens : layer.tokens = page.tokens ∨ layer.tokens = tokens := by
      rcases hleads l hl with rfl | hl | rfl
      · exact .inl (by rw [List.mem_singleton.1 hm])
      · obtain ⟨state, -, rfl⟩ := List.mem_map.1 hl
        rcases List.mem_cons.1 hm with rfl | hm
        · exact .inr rfl
        · exact .inl (by rw [List.mem_singleton.1 hm])
      · exact .inl (by rw [List.mem_singleton.1 hm]; rfl)
    have hall : ∀ token ∈ page.tokens ++ tokens, Spares ["k"] token := by decide
    refine hall token (Array.mem_append.2 ?_)
    rcases htokens with heq | heq
    · exact .inl (heq ▸ ht)
    · exact .inr (heq ▸ ht)
  have hagree : Context.AgreeBut ["k"] entries entries' :=
    fun _ hname => (Entries.get?_insert_of_ne (List.ne_of_not_mem_cons hname) _ _).symm
  have hrender : render settings "<%>p%>" root = .ok "a" := by
    rw [render, renderAt_eq_evaluateAt]
    cbv
  exact ⟨hagree, hspares, hrender,
    (unmentioned_entries_have_no_influence hagree hspares).symm.trans hrender⟩

end Render

end Mustache
