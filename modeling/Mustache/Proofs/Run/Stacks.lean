import Mustache.Proofs.Run.Failure

/-!
# The stacks of a run

An opening tag puts a section on the stack of open sections, and mostly a scope on the stack of
scopes (`Opens`). Whatever happens inside the section, nothing below is touched until it is
closed: at any state of a run, the stacks hold what the opening tags of the sections around the
cursor have put there, each on top of the stacks as it has found them (`Holds`). The states in
which it has found them are kept count of (`Traced`), so that there is something to compare the
stacks with once a section is left.

* `Reaches.exists_traced`: each state of a run has such a trace;
* `stacks_follow_sections`: what this says of the stacks, and of closing tags.
-/

namespace Mustache.Render

open Template

/-- What the opening tag at the cursor puts on the stacks: a section, and the scopes in it. For
    an array there is one such pair for each of its items. -/
inductive Opens (tokens : List Token) (u : State) : Opened → List Context → Prop
  | scope {token : Token} {entries : List (String × Context)} :
      tokens[u.cursor]? = some token → token.kind = .opener →
      Context.resolve u.scopes token.value = some (.object entries) →
      Opens tokens u ⟨token.value, .scope⟩ (.object entries :: u.scopes)
  | loop {token : Token} {items : List Context} {remaining : Nat} {item : Context} :
      tokens[u.cursor]? = some token → token.kind = .opener →
      Context.resolve u.scopes token.value = some (.array items) →
      1 ≤ remaining → remaining ≤ items.length → items[items.length - remaining]? = some item →
      Opens tokens u ⟨token.value, .loop items.toArray (u.cursor + 1) remaining⟩ (item :: u.scopes)
  | scalar {token : Token} {value : Scalar} :
      tokens[u.cursor]? = some token → token.kind = .opener →
      Context.resolve u.scopes token.value = some (.scalar value) → value.truthy = true →
      Opens tokens u ⟨token.value, .pass⟩ u.scopes
  | inverse {token : Token} :
      tokens[u.cursor]? = some token → token.kind = .inverse →
      (Context.resolve u.scopes token.value).any (·.truthy) = false →
      Opens tokens u ⟨token.value, .pass⟩ u.scopes

/-- The stacks, if they hold what has been put there in some states, the last one first, and
    nothing else but the scopes that there were at first. -/
inductive Holds (tokens : List Token) (scopes : List Context) :
    List State → List Opened → List Context → Prop
  | nil : Holds tokens scopes [] [] scopes
  | cons {u : State} {us : List State} {o : Opened} {inner : List Context} :
      Holds tokens scopes us u.opened u.scopes → Opens tokens u o inner →
      Holds tokens scopes (u :: us) (o :: u.opened) inner

/-- The states of a run in which the sections around the cursor have been opened. -/
structure Traced (settings : Settings) (expansion : Expansion) (tokens : List Token)
    (scopes : List Context) (s : State) (us : List State) : Prop where
  cursors_eq : us.map (·.cursor) = Sections.enclosing tokens s.cursor
  holds : Holds tokens scopes us s.opened s.scopes
  reaches : ∀ u ∈ us, Reaches settings expansion tokens.toArray (.start scopes) u ∧
    Reaches settings expansion tokens.toArray u s

/-- What the closing tag at the cursor makes of a state, if the section has been opened in the
    state `u`: the stacks are as they were then, or there is the next item on top of them. -/
inductive Undoes (s u : State) (o : Opened) : State → Prop
  | leave : (∀ items start remaining, o.frame = .loop items start remaining → remaining = 1) →
      Undoes s u o { s with opened := u.opened, scopes := u.scopes, cursor := s.cursor + 1 }
  | again {items : Array Context} {remaining : Nat} {item : Context} :
      o.frame = .loop items (u.cursor + 1) remaining → 1 < remaining →
      items[items.size - (remaining - 1)]? = some item →
      Undoes s u o { s with
        opened := ⟨o.name, .loop items (u.cursor + 1) (remaining - 1)⟩ :: u.opened
        scopes := item :: u.scopes
        cursor := u.cursor + 1 }

section

variable {tokens : List Token} {token : Token} {s t u : State} {scopes inner : List Context}
  {us : List State} {o : Opened} {opened : List Opened}

/-! ## Opening tags -/

theorem Opens.exists_token (h : Opens tokens u o inner) :
    ∃ token, tokens[u.cursor]? = some token ∧ token.kind.role = .opens ∧ o.name = token.value := by
  cases h with
  | scope hget hk | loop hget hk | scalar hget hk | inverse hget hk =>
    exact ⟨_, hget, by rw [hk, Kind.role], rfl⟩

/-- Leaving a section undoes what its opening tag has done to the scopes. -/
theorem Opens.undo_eq (h : Opens tokens u o inner) : o.frame.undo inner = u.scopes := by
  cases h <;> rfl

/-- The section of a loop starts right behind its opening tag, and there is an item at hand. -/
theorem Opens.loop_bounds {items : Array Context} {start remaining : Nat}
    (h : Opens tokens u o inner) (ho : o.frame = .loop items start remaining) :
    start = u.cursor + 1 ∧ 1 ≤ remaining ∧ remaining ≤ items.size ∧
      items[items.size - remaining]? = inner.head? := by
  cases h with
  | scope | scalar | inverse => cases ho
  | loop _ _ _ hone hle hitem =>
    cases ho
    refine ⟨rfl, hone, hle, ?_⟩
    rw [List.size_toArray, List.getElem?_toArray, hitem, List.head?_cons]

theorem Holds.eq_of_nil (h : Holds tokens scopes [] opened inner) :
    opened = [] ∧ inner = scopes := by
  cases h
  exact ⟨rfl, rfl⟩

theorem Holds.exists_of_cons (h : Holds tokens scopes (u :: us) opened inner) :
    ∃ o, opened = o :: u.opened ∧ Holds tokens scopes us u.opened u.scopes ∧
      Opens tokens u o inner := by
  cases h with
  | cons hholds hopens => exact ⟨_, rfl, hholds, hopens⟩

/-- A step at an opening tag goes past the section, or puts it on the stacks. -/
theorem opens_of_step {settings : Settings} {expansion : Expansion}
    (hget : tokens[s.cursor]? = some token) (hr : token.kind.role = .opens)
    (h : step settings expansion tokens.toArray s token = .ok t) :
    (∃ i, Sections.closing? tokens.toArray s.cursor = some i ∧ t = { s with cursor := i + 1 }) ∨
      ∃ o, t.cursor = s.cursor + 1 ∧ t.opened = o :: s.opened ∧ Opens tokens s o t.scopes := by
  have hskip : ∀ {t}, s.skip tokens.toArray token = .ok t →
      ∃ i, Sections.closing? tokens.toArray s.cursor = some i ∧ t = { s with cursor := i + 1 } := by
    intro t h
    rw [State.skip] at h
    split at h
    · cases h
    · next i hi =>
      cases h
      exact ⟨i, hi, rfl⟩
  rcases role_eq_opens_iff.1 hr with hk | hk
  · rw [step, hk] at h
    simp only [State.openSection] at h
    split at h
    · exact .inl (hskip h)
    · next hv =>
      cases h
      exact .inr ⟨_, rfl, rfl, .scope hget hk hv⟩
    · exact .inl (hskip h)
    · next first others hv =>
      cases h
      refine .inr ⟨_, rfl, rfl, .loop hget hk hv ?_ ?_ ?_⟩
      · simp
      · simp
      · simp
    · next value hv =>
      split at h
      · next htrue =>
        cases h
        exact .inr ⟨_, rfl, rfl, .scalar hget hk hv htrue⟩
      · exact .inl (hskip h)
  · rw [step, hk] at h
    simp only [State.openInverse] at h
    split at h
    · exact .inl (hskip h)
    · next hv =>
      cases h
      exact .inr ⟨_, rfl, rfl, .inverse hget hk (by simpa using hv)⟩

/-! ## Closing tags -/

/-- A closing tag undoes what the opening tag of its section has done. -/
theorem Opens.exists_close (h : Opens tokens u o s.scopes) (ho : s.opened = o :: u.opened)
    (hname : o.name = token.value) : ∃ t, s.close token = .ok t ∧ Undoes s u o t := by
  have hundo := h.undo_eq
  obtain ⟨name, frame⟩ := o
  obtain rfl : name = token.value := hname
  simp only [State.close, ho, ne_eq, not_true, if_false]
  cases frame with
  | pass =>
    have hscopes : s.scopes = u.scopes := hundo
    rw [hscopes]
    exact ⟨_, rfl, .leave (by simp)⟩
  | scope =>
    have hscopes : s.scopes.tail = u.scopes := hundo
    rw [hscopes]
    exact ⟨_, rfl, .leave (by simp)⟩
  | loop items start remaining =>
    have hscopes : s.scopes.tail = u.scopes := hundo
    obtain ⟨rfl, hone, hle, -⟩ := h.loop_bounds rfl
    rw [hscopes]
    dsimp only
    cases hitem : items[items.size - (remaining - 1)]? with
    | none =>
      -- Only behind the last item there is none.
      have hlast : items.size ≤ items.size - (remaining - 1) := Array.getElem?_eq_none_iff.1 hitem
      refine ⟨_, rfl, .leave fun items' start remaining' heq => ?_⟩
      cases heq
      omega
    | some item =>
      have hlt : items.size - (remaining - 1) < items.size :=
        (Array.getElem?_eq_some_iff.1 hitem).1
      exact ⟨_, rfl, .again rfl (by omega) hitem⟩

/-- Once the next item is in scope, the section is still open as its opening tag has opened it,
    but for one item less. -/
theorem Opens.next {items : Array Context} {remaining : Nat} {item : Context}
    (h : Opens tokens u o inner) (ho : o.frame = .loop items (u.cursor + 1) remaining)
    (hlt : 1 < remaining) (hitem : items[items.size - (remaining - 1)]? = some item) :
    Opens tokens u ⟨o.name, .loop items (u.cursor + 1) (remaining - 1)⟩ (item :: u.scopes) := by
  cases h with
  | scope | scalar | inverse => cases ho
  | loop hget hk hv hone hle _ =>
    cases ho
    rw [List.size_toArray, List.getElem?_toArray] at hitem
    exact .loop hget hk hv (by omega) (by omega) hitem

/-! ## Runs -/

variable {settings : Settings} {expansion : Expansion}

/-- At a closing tag, the section that has been opened last is the one to be closed. -/
theorem Traced.exists_opens (hc : Sections.check tokens = .ok ())
    (ht : Traced settings expansion tokens scopes s us) (hget : tokens[s.cursor]? = some token)
    (hr : token.kind.role = .closes) :
    ∃ u outer o, us = u :: outer ∧ s.opened = o :: u.opened ∧ o.name = token.value ∧
      Holds tokens scopes outer u.opened u.scopes ∧ Opens tokens u o s.scopes := by
  obtain ⟨k, outer, opener, he, hopener, hv⟩ := Sections.exists_enclosing_of_closes hc hget hr
  have hcursors := ht.cursors_eq
  rw [he] at hcursors
  cases us with
  | nil => cases hcursors
  | cons u outer' =>
    obtain ⟨rfl, -⟩ := List.cons.inj hcursors
    obtain ⟨o, ho, hholds, hopens⟩ := ht.holds.exists_of_cons
    obtain ⟨opener', hopener', -, hname⟩ := hopens.exists_token
    obtain rfl := Option.some.inj (hopener.symm.trans hopener')
    exact ⟨u, outer', o, rfl, ho, hname.trans hv, hholds, hopens⟩

/-- Each move of the machine keeps a trace. -/
theorem Traced.step (hc : Sections.check tokens = .ok ())
    (hs : Reaches settings expansion tokens.toArray (.start scopes) s)
    (ht : Traced settings expansion tokens scopes s us) (hget : tokens[s.cursor]? = some token)
    (hstep : Render.step settings expansion tokens.toArray s token = .ok t) :
    ∃ us', Traced settings expansion tokens scopes t us' := by
  have hat : tokens.toArray[s.cursor]? = some token := by rw [List.getElem?_toArray, hget]
  have hreaches : ∀ u ∈ us, Reaches settings expansion tokens.toArray (.start scopes) u ∧
      Reaches settings expansion tokens.toArray u t :=
    fun u hu => ⟨(ht.reaches u hu).1, (ht.reaches u hu).2.step hat hstep⟩
  cases hr : token.kind.role with
  | stays =>
    cases moves_of_step hstep with
    | skip h | pass h | scope h | loop h | leave h | again h => rw [hr] at h; cases h
    | stay _ hcursor hscopes hopened =>
      refine ⟨us, ?_, ?_, hreaches⟩
      · rw [ht.cursors_eq, hcursor, Sections.enclosing_succ_stays hget hr]
      · rw [hopened, hscopes]
        exact ht.holds
  | opens =>
    rcases opens_of_step hget hr hstep with ⟨i, hi, rfl⟩ | ⟨o, hcursor, hopened, hopens⟩
    · -- Behind the closing tag the same sections are open as in front of the opening one.
      obtain ⟨j, hj, -, he⟩ := Sections.exists_closing? hc hget hr
      obtain rfl := Option.some.inj (hi.symm.trans hj)
      exact ⟨us, ht.cursors_eq.trans he.symm, ht.holds, hreaches⟩
    · refine ⟨s :: us, ?_, ?_, List.forall_mem_cons.2 ⟨⟨hs, .step .refl hat hstep⟩, hreaches⟩⟩
      · rw [List.map_cons, ht.cursors_eq, hcursor, Sections.enclosing_succ_opens hget hr]
      · rw [hopened]
        exact .cons ht.holds hopens
  | closes =>
    obtain ⟨u, outer, o, rfl, ho, hname, hholds, hopens⟩ := ht.exists_opens hc hget hr
    obtain ⟨hu, houter⟩ := List.forall_mem_cons.1 hreaches
    obtain ⟨t', hclose, hundoes⟩ := hopens.exists_close ho hname
    rw [Render.step, role_eq_closes_iff.1 hr] at hstep
    obtain rfl : t' = t := Except.ok.inj (hclose.symm.trans hstep)
    have hcursors := ht.cursors_eq
    rw [List.map_cons] at hcursors
    cases hundoes with
    | leave =>
      refine ⟨outer, ?_, hholds, houter⟩
      show _ = Sections.enclosing tokens (s.cursor + 1)
      rw [Sections.enclosing_succ_closes hget hr, ← hcursors, List.tail_cons]
    | again hframe hlt hitem =>
      refine ⟨u :: outer, ?_, .cons hholds (hopens.next hframe hlt hitem), hreaches⟩
      obtain ⟨opener, hopener, hropener, -⟩ := hopens.exists_token
      show _ = Sections.enclosing tokens (u.cursor + 1)
      rw [Sections.enclosing_succ_opens hopener hropener,
        (Sections.enclosing_of_cons hcursors.symm).2, List.map_cons]

/-- Each state of a run has a trace. -/
theorem Reaches.exists_traced (hc : Sections.check tokens = .ok ())
    (h : Reaches settings expansion tokens.toArray (.start scopes) s) :
    ∃ us, Traced settings expansion tokens scopes s us := by
  induction h with
  | refl => exact ⟨[], rfl, .nil, by simp⟩
  | step hreach hget hstep ih =>
    obtain ⟨us, ht⟩ := ih
    rw [List.getElem?_toArray] at hget
    exact ht.step hc hreach hget hstep

/-- The names of the open sections are those on the opening tags around the cursor. -/
theorem Holds.names_eq (h : Holds tokens scopes us opened inner) :
    opened.map (some ·.name) = us.map fun u => tokens[u.cursor]?.map (·.value) := by
  induction h with
  | nil => rfl
  | cons _ hopens ih =>
    obtain ⟨opener, hopener, -, hname⟩ := hopens.exists_token
    rw [List.map_cons, List.map_cons, ih, hopener, Option.map_some, hname]

/-- An open section that runs through an array has an item at hand. -/
theorem Holds.loop_bounds (h : Holds tokens scopes us opened inner) (ho : o ∈ opened)
    {items : Array Context} {start remaining : Nat} (hf : o.frame = .loop items start remaining) :
    1 ≤ remaining ∧ remaining ≤ items.size := by
  induction h with
  | nil => cases ho
  | cons _ hopens ih =>
    rcases List.mem_cons.1 ho with rfl | ho
    · exact ⟨(hopens.loop_bounds hf).2.1, (hopens.loop_bounds hf).2.2.1⟩
    · exact ih ho

/-- At the end of a template no section is open, and the scopes are those at the start. -/
theorem Traced.eq_of_length_le (hc : Sections.check tokens = .ok ())
    (h : Traced settings expansion tokens scopes s us) (hend : tokens.length ≤ s.cursor) :
    s.opened = [] ∧ s.scopes = scopes := by
  have hcursors := h.cursors_eq
  rw [Sections.enclosing_of_length_le hc hend, List.map_eq_nil_iff] at hcursors
  exact (hcursors ▸ h.holds).eq_of_nil

/-- In a template that passes the check, the stacks of a run follow its sections. The sections
    that are open are those around the cursor, the innermost first; they have been opened in the
    states `us`, and the stacks hold what was put there then: an object or the item at hand, for
    each section that needs one, on top of the scopes at the start. Closing tags take away just
    that, until at the end nothing is left but the scopes at the start. -/
theorem stacks_follow_sections (settings : Settings) (expansion : Expansion)
    {tokens : List Token} (hc : Sections.check tokens = .ok ()) (scopes : List Context) {s : State}
    (h : Reaches settings expansion tokens.toArray (.start scopes) s) :
    ((Sections.enclosing tokens s.cursor).Pairwise (· > ·) ∧
      ∀ k, k ∈ Sections.enclosing tokens s.cursor ↔ Sections.Encloses tokens k s.cursor) ∧
    (∃ us, Traced settings expansion tokens scopes s us ∧
      s.opened.map (some ·.name) =
        (Sections.enclosing tokens s.cursor).map (fun k => tokens[k]?.map (·.value)) ∧
      ∀ token, tokens[s.cursor]? = some token → token.kind = .ender →
        ∃ u outer o t, us = u :: outer ∧ s.opened = o :: u.opened ∧ o.name = token.value ∧
          s.close token = .ok t ∧ Undoes s u o t) ∧
    (∀ o ∈ s.opened, ∀ items start remaining, o.frame = .loop items start remaining →
      1 ≤ remaining ∧ remaining ≤ items.size ∧ items.size - remaining < items.size ∧
        (1 < remaining → items.size - (remaining - 1) < items.size)) ∧
    (tokens.length ≤ s.cursor → s.opened = [] ∧ s.scopes = scopes) := by
  obtain ⟨us, ht⟩ := h.exists_traced hc
  refine ⟨⟨Sections.pairwise_enclosing _ _, fun k => Sections.mem_enclosing_iff hc⟩,
    ⟨us, ht, ?_, fun token hget hk => ?_⟩, fun o ho items start remaining hf => ?_,
    ht.eq_of_length_le hc⟩
  · rw [ht.holds.names_eq, ← ht.cursors_eq, List.map_map]
    rfl
  · obtain ⟨u, outer, o, rfl, ho, hname, -, hopens⟩ :=
      ht.exists_opens hc hget (role_eq_closes_iff.2 hk)
    obtain ⟨t, hclose, hundoes⟩ := hopens.exists_close ho hname
    exact ⟨u, outer, o, t, rfl, ho, hname, hclose, hundoes⟩
  · obtain ⟨hone, hle⟩ := ht.holds.loop_bounds ho hf
    exact ⟨hone, hle, by omega, by omega⟩

/-- At the end of a section about an array, the first of two items is replaced by the second. -/
theorem stacks_follow_sections_loop :
    let settings : Settings := {}
    let expansion : Expansion := fun _ _ _ => .ok ""
    let tokens : List Token :=
      [⟨.opener, "a".toList, 1⟩, ⟨.escaped, ".".toList, 1⟩, ⟨.ender, "a".toList, 1⟩]
    let data : Context := .object [("a", .array [.string "x", .string "y"])]
    let items : Array Context := #[.string "x", .string "y"]
    let s : State := ⟨2, [.string "x", data], [⟨"a".toList, .loop items 1 2⟩], none, "x"⟩
    Sections.check tokens = .ok () ∧
      Reaches settings expansion tokens.toArray (.start [data]) s ∧
      Sections.Encloses tokens 0 2 ∧
      ∃ u us t, Traced settings expansion tokens [data] s (u :: us) ∧
        s.close ⟨.ender, "a".toList, 1⟩ = .ok t ∧ Undoes s u ⟨"a".toList, .loop items 1 2⟩ t ∧
        t.scopes = [.string "y", data] := by
  intro settings expansion tokens data items s
  have hc : Sections.check tokens = .ok () := rfl
  let inside : State := ⟨1, [.string "x", data], [⟨"a".toList, .loop items 1 2⟩], none, ""⟩
  have hopen : step settings expansion tokens.toArray (.start [data]) ⟨.opener, "a".toList, 1⟩ =
      .ok inside := rfl
  have hwrite : step settings expansion tokens.toArray inside ⟨.escaped, ".".toList, 1⟩ = .ok s := by
    cbv
  have h : Reaches settings expansion tokens.toArray (.start [data]) s :=
    .step (.step .refl rfl hopen) rfl hwrite
  obtain ⟨⟨-, hencloses⟩, ⟨us, ht, -, hender⟩, -, -⟩ :=
    stacks_follow_sections settings expansion hc [data] h
  obtain ⟨u, outer, o, t, rfl, ho, -, hclose, hundoes⟩ := hender _ rfl rfl
  obtain ⟨rfl, -⟩ := List.cons.inj ho
  refine ⟨hc, h, (hencloses 0).1 (by decide), u, outer, t, ht, hclose, hundoes, ?_⟩
  cases hclose
  rfl

end

end Mustache.Render
