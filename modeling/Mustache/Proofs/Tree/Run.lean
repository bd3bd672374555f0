import Mathlib
import Mustache.Proofs.Run
import Mustache.Proofs.Tree.Evaluate

/-!
# The machine evaluates the tree

While the machine goes through the tokens of some pieces, from whatever state it is in, it
does no more than write their output (`writes_nests`): it comes out behind them with the
scopes and open sections that it went in with. A section that is passed over is left behind
at once (`Sections.closing?_of_balanced`), and one that is shown is gone through once for each item.

* `run_nests`: a run over all tokens of a template evaluates its tree;
* `renderAt_eq_evaluateAt`: a template at any depth of partials.
-/

namespace Mustache.Render

open Template

/-! ## Where the machine is -/

section

variable {tokens : Array Token} {token : Token} {inner rest : List Token} {i : Nat}

theorem length_section {opener ender : Token} :
    (opener :: (inner ++ ender :: rest)).length = inner.length + 2 + rest.length := by
  rw [List.length_cons, List.length_append, List.length_cons]
  omega

theorem drop_section_of_drop {opener ender : Token}
    (h : tokens.toList.drop i = opener :: (inner ++ ender :: rest)) :
    tokens.toList.drop (i + (inner.length + 2)) = rest := by
  rw [← List.drop_drop, h, List.drop_succ_cons, ← List.drop_drop, List.drop_left, List.drop_one,
    List.tail_cons]

end

/-- The state with some more tokens gone through and some more text written. -/
def State.advance (s : State) (n : Nat) (text : String) : State :=
  { s with cursor := s.cursor + n, output := s.output ++ text }

theorem State.advance_advance (s : State) (m n : Nat) (text more : String) :
    (s.advance m text).advance n more = s.advance (m + n) (text ++ more) := by
  simp [State.advance, Nat.add_assoc, String.append_assoc]

/-! ## What the machine writes -/

/-- From the state `s` the machine goes through `n` tokens, and all it does is to write the
    output that `f` has for the scopes. If `f` fails, so does the machine. -/
def Writes (settings : Settings) (expansion : Expansion) (tokens : Array Token) (s : State)
    (n : Nat) (f : List Context → Except TemplateError String) : Prop :=
  run settings expansion tokens s =
    f s.scopes >>= fun out => run settings expansion tokens (s.advance n out)

section

variable {settings : Settings} {expansion : Expansion} {tokens : Array Token} {s : State}

theorem writes_nil :
    Writes settings expansion tokens s 0 (evaluateAll settings expansion []) := by
  show _ = run settings expansion tokens (s.advance 0 "")
  rw [State.advance, Nat.add_zero, String.append_empty]

/-- What is written for a piece, and then for those after it. -/
theorem Writes.cons {m n : Nat} {piece : Piece} {pieces : List Piece}
    (hpiece : Writes settings expansion tokens s m (evaluate settings expansion piece))
    (hpieces : ∀ out, Writes settings expansion tokens (s.advance m out) n
      (evaluateAll settings expansion pieces)) :
    Writes settings expansion tokens s (m + n)
      (evaluateAll settings expansion (piece :: pieces)) := by
  rw [Writes, hpiece, evaluateAll, bind_assoc]
  congr 1
  funext first
  rw [hpieces, bind_assoc]
  congr 1
  funext others
  rw [pure_bind, State.advance_advance]

/-- What is written in one step. -/
theorem writes_of_step {token : Token} {f : List Context → Except TemplateError String}
    (h : tokens[s.cursor]? = some token)
    (hs : step settings expansion tokens s token = (s.advance 1) <$> f s.scopes) :
    Writes settings expansion tokens s 1 f := by
  rw [Writes, run_of_getElem? settings expansion h, hs, map_eq_pure_bind, bind_assoc]
  rfl

/-- The body of a partial is rendered in the scopes, and then written. -/
theorem expand_eq {token : Token} (s : State) :
    s.expand expansion token =
      (fun out => { s.advance 1 out with indentation := none }) <$>
        expansion token.value (partialBody s.indentation
          (Context.resolveText s.scopes token.value).toList) s.scopes :=
  rfl

/-- A token that is a piece of its own is dealt with in one step. -/
theorem step_leaf {token : Token} {piece : Piece} (h : leaf? token = some piece)
    (hi : s.indentation = none) :
    step settings expansion tokens s token =
      (s.advance 1) <$> evaluate settings expansion piece s.scopes := by
  rw [leaf?] at h
  split at h <;> cases h
  next hk => simp only [step, hk, evaluate]; rfl
  next hk => simp only [step, hk, evaluate]; rfl
  next hk => simp only [step, hk, evaluate, Bool.true_and]; rfl
  next hk => simp only [step, hk, evaluate, Bool.false_and]; rfl
  next hk =>
    simp only [step, hk, evaluate, expand_eq, hi, partialBody, List.isEmpty_nil, if_true,
      map_eq_pure_bind, bind_assoc]
    congr 1
    funext out
    simp [State.advance, hi]

/-- An indentation and the partial behind it are dealt with in two steps. -/
theorem writes_indented {indenter token : Token} {post : List Token}
    (hk : indenter.kind = .indenter) (hne : indenter.value ≠ []) (he : token.kind = .expansion)
    (hi : s.indentation = none)
    (hd : tokens.toList.drop s.cursor = indenter :: token :: post) :
    Writes settings expansion tokens s 2
      (evaluate settings expansion (.expansion indenter.value token.value)) := by
  have hblank : indenter.value.isEmpty = false := by simpa using hne
  have hindent : step settings expansion tokens s indenter =
      .ok { s.advance 1 (String.ofList indenter.value) with
        indentation := some indenter.value } := by
    simp only [step, hk, State.indent, hblank, Bool.false_eq_true, if_false]
    rfl
  rw [Writes, run_of_getElem? settings expansion (getElem?_of_drop hd), hindent]
  refine (run_of_getElem? settings expansion (getElem?_of_drop (drop_succ_of_drop hd))).trans ?_
  simp only [step, he, evaluate, expand_eq, hblank, partialBody, Bool.false_eq_true, if_false,
    map_eq_pure_bind, bind_assoc]
  congr 1
  funext out
  simp [State.advance, hi, String.append_assoc]

end

/-! ## Sections -/

/-- The machine is in front of a section with the given tags, and it is known what is
    written between them. -/
structure Meets (settings : Settings) (expansion : Expansion) (tokens : Array Token)
    (opener ender : Token) (length : Nat) (body : List Piece) (s : State) : Prop where
  opener_at : tokens[s.cursor]? = some opener
  ender_at : tokens[s.cursor + 1 + length]? = some ender
  ender_kind : ender.kind = .ender
  value_eq : opener.value = ender.value
  closing : Sections.closing? tokens s.cursor = some (s.cursor + 1 + length)
  indentation : s.indentation = none
  body : ∀ t : State, t.cursor = s.cursor + 1 → t.indentation = none →
    Writes settings expansion tokens t length (evaluateAll settings expansion body)

namespace Meets

variable {settings : Settings} {expansion : Expansion} {tokens : Array Token} {s : State}
  {opener ender : Token} {length : Nat} {body : List Piece}

/-- What has been written so far does not matter. -/
theorem advance_zero (h : Meets settings expansion tokens opener ender length body s)
    (out : String) :
    Meets settings expansion tokens opener ender length body (s.advance 0 out) :=
  ⟨h.opener_at, h.ender_at, h.ender_kind, h.value_eq, h.closing, h.indentation, h.body⟩

/-- A section that is not shown is left behind at once. -/
theorem skip_eq (h : Meets settings expansion tokens opener ender length body s) :
    s.skip tokens opener = .ok (s.advance (length + 2) "") := by
  have hcursor : s.cursor + 1 + length + 1 = s.cursor + (length + 2) := by omega
  simp only [State.skip, h.closing, hcursor, State.advance, String.append_empty]

/-! ### Closing tags -/

/-- A section without anything in scope of its own is left. -/
theorem close_pass (h : Meets settings expansion tokens opener ender length body s)
    (out : String) :
    ((s.enter opener.value .pass s.scopes).advance length out).close ender =
      .ok (s.advance (length + 2) out) := by
  have hcursor : s.cursor + 1 + length + 1 = s.cursor + (length + 2) := by omega
  simp only [State.close, State.enter, State.advance, h.value_eq, ne_eq, not_true, if_false,
    hcursor]

/-- A section about an object is left. -/
theorem close_scope (h : Meets settings expansion tokens opener ender length body s)
    (item : Context) (out : String) :
    ((s.enter opener.value .scope (item :: s.scopes)).advance length out).close ender =
      .ok (s.advance (length + 2) out) := by
  have hcursor : s.cursor + 1 + length + 1 = s.cursor + (length + 2) := by omega
  simp only [State.close, State.enter, State.advance, h.value_eq, ne_eq, not_true, if_false,
    List.tail_cons, hcursor]

/-- A section about an array is left after its last item. -/
theorem close_last (h : Meets settings expansion tokens opener ender length body s)
    (items : Array Context) (start : Nat) (item : Context) (out : String) :
    ((s.enter opener.value (.loop items start 1) (item :: s.scopes)).advance length out).close
      ender = .ok (s.advance (length + 2) out) := by
  have hcursor : s.cursor + 1 + length + 1 = s.cursor + (length + 2) := by omega
  simp only [State.close, State.enter, State.advance, h.value_eq, ne_eq, not_true, if_false,
    Nat.sub_self, Nat.sub_zero, Array.getElem?_size, List.tail_cons, hcursor]

/-- A section about an array starts again with the next item in scope, behind what has been
    written. -/
theorem close_next (h : Meets settings expansion tokens opener ender length body s)
    {items : Array Context} {remaining : Nat} {item next : Context}
    (hnext : items[items.size - remaining]? = some next) (out : String) :
    ((s.enter opener.value (.loop items (s.cursor + 1) (remaining + 1))
        (item :: s.scopes)).advance length out).close ender =
      .ok ((s.advance 0 out).enter opener.value
        (.loop items ((s.advance 0 out).cursor + 1) remaining)
        (next :: (s.advance 0 out).scopes)) := by
  simp only [State.close, State.enter, State.advance, h.value_eq, ne_eq, not_true, if_false,
    Nat.add_sub_cancel, hnext, List.tail_cons, Nat.add_zero]

/-! ### Shown sections -/

/-- A section that is shown writes what it holds, and then comes to its closing tag. -/
theorem run_enter (h : Meets settings expansion tokens opener ender length body s)
    (frame : Frame) (scopes : List Context) :
    run settings expansion tokens (s.enter opener.value frame scopes) =
      evaluateAll settings expansion body scopes >>= fun out =>
        ((s.enter opener.value frame scopes).advance length out).close ender >>=
          run settings expansion tokens := by
  -- The body is written from inside the section, whatever the frame is.
  rw [h.body (s.enter opener.value frame scopes) rfl h.indentation]
  congr 1
  funext out
  rw [run_of_getElem? settings expansion h.ender_at, step, h.ender_kind]

/-- A section that is left at its closing tag is shown once. -/
theorem run_once (h : Meets settings expansion tokens opener ender length body s)
    {frame : Frame} {scopes : List Context}
    (hclose : ∀ out, ((s.enter opener.value frame scopes).advance length out).close ender =
      .ok (s.advance (length + 2) out)) :
    run settings expansion tokens (s.enter opener.value frame scopes) =
      evaluateAll settings expansion body scopes >>= fun out =>
        run settings expansion tokens (s.advance (length + 2) out) := by
  simp only [h.run_enter, hclose]
  rfl

/-- A section about an array is shown for the item at hand and for each one still to come. -/
theorem run_loop (h : Meets settings expansion tokens opener ender length body s)
    {items earlier later : List Context} {item : Context}
    (hitems : items = earlier ++ item :: later) :
    run settings expansion tokens (s.enter opener.value
        (.loop items.toArray (s.cursor + 1) (later.length + 1)) (item :: s.scopes)) =
      inOrder (fun item => evaluateAll settings expansion body (item :: s.scopes))
          (item :: later) >>= fun out =>
        run settings expansion tokens (s.advance (length + 2) out) := by
  -- By induction on the items still to come. What has been written grows with each item.
  induction later generalizing s earlier item with
  | nil =>
    rw [List.length_nil, Nat.zero_add, h.run_once (h.close_last _ _ _), inOrder, bind_assoc]
    congr 1
    funext out
    show _ = run settings expansion tokens (s.advance (length + 2) (out ++ ""))
    rw [String.append_empty]
  | cons next later ih =>
    have hshift : items = (earlier ++ [item]) ++ next :: later := by
      rw [hitems, List.append_cons]
    have hnext : items.toArray[items.toArray.size - (later.length + 1)]? = some next := by
      have hi : items.length - (later.length + 1) = (earlier ++ [item]).length := by
        rw [hshift, List.length_append, List.length_cons, Nat.add_sub_cancel]
      rw [List.getElem?_toArray, List.size_toArray, hi, hshift,
        List.getElem?_append_right (Nat.le_refl _), Nat.sub_self, List.getElem?_cons_zero]
    rw [h.run_enter, inOrder, bind_assoc]
    congr 1
    funext out
    rw [List.length_cons, h.close_next hnext]
    show run settings expansion tokens _ = _
    rw [ih (h.advance_zero out) hshift, bind_assoc]
    congr 1
    funext others
    rw [State.advance_advance, Nat.zero_add]
    rfl

/-- The machine writes what a section evaluates to. -/
theorem writes_block (h : Meets settings expansion tokens opener ender length body s)
    (hk : opener.kind = .opener) :
    Writes settings expansion tokens s (length + 2)
      (evaluate settings expansion (.block opener.value body)) := by
  rw [Writes, run_of_getElem? settings expansion h.opener_at, step, hk]
  simp only [State.openSection, evaluate]
  cases Context.resolve s.scopes opener.value with
  | none => simp only [h.skip_eq]; rfl
  | some value =>
    cases value with
    | object entries => exact h.run_once (h.close_scope _)
    | array items =>
      cases items with
      | nil => simp only [h.skip_eq]; rfl
      | cons first others => exact h.run_loop (List.nil_append _).symm
    | scalar value =>
      simp only
      split
      · exact h.run_once h.close_pass
      · simp only [h.skip_eq]; rfl

/-- The machine writes what an inverted section evaluates to. -/
theorem writes_inverse (h : Meets settings expansion tokens opener ender length body s)
    (hk : opener.kind = .inverse) :
    Writes settings expansion tokens s (length + 2)
      (evaluate settings expansion (.inverse opener.value body)) := by
  rw [Writes, run_of_getElem? settings expansion h.opener_at, step, hk]
  simp only [State.openInverse, evaluate]
  cases Context.resolve s.scopes opener.value with
  | none => exact h.run_once h.close_pass
  | some value =>
    simp only [Option.any_some]
    split
    · simp only [h.skip_eq]; rfl
    · exact h.run_once h.close_pass

end Meets

/-! ## The whole template -/

section

variable {settings : Settings} {expansion : Expansion} {tokens : Array Token}

/-- Between the tags of a section, it is known what the machine writes if it is known of the
    tokens that stand there. -/
theorem meets_of_drop {s : State} {opener ender : Token} {inner post : List Token}
    {body : List Piece} (he : ender.kind = .ender)
    (hv : opener.value = ender.value) (hn : Nests inner body)
    (hd : tokens.toList.drop s.cursor = opener :: (inner ++ ender :: post))
    (hi : s.indentation = none)
    (hbody : ∀ t : State, tokens.toList.drop t.cursor = inner ++ ender :: post →
      t.indentation = none →
      Writes settings expansion tokens t inner.length (evaluateAll settings expansion body)) :
    Meets settings expansion tokens opener ender inner.length body s where
  opener_at := getElem?_of_drop hd
  ender_at := getElem?_of_drop (drop_add_of_drop (drop_succ_of_drop hd))
  ender_kind := he
  value_eq := hv
  closing := Sections.closing?_of_balanced hn.balanced (role_eq_closes_iff.2 he) hd
  indentation := hi
  body t ht := hbody t (ht ▸ drop_succ_of_drop hd)

/-- Among the tokens of some pieces, the machine writes what the pieces evaluate to. -/
theorem writes_nests {seg : List Token} {pieces : List Piece} (h : Nests seg pieces) {s : State}
    {post : List Token} (hd : tokens.toList.drop s.cursor = seg ++ post)
    (hi : s.indentation = none) :
    Writes settings expansion tokens s seg.length (evaluateAll settings expansion pieces) := by
  -- By induction on how the tokens nest, for every state in front of them: inside a section
  -- the machine is in other scopes, and may come by several times.
  induction h generalizing s post with
  | nil => exact writes_nil
  | leaf hl _ ih =>
    rw [List.length_cons, Nat.add_comm]
    refine .cons (writes_of_step (getElem?_of_drop hd) (step_leaf hl hi)) fun out => ?_
    exact ih (drop_succ_of_drop hd) hi
  | indented hk hne he _ ih =>
    rw [List.length_cons, List.length_cons, Nat.add_assoc, Nat.add_comm]
    refine .cons (writes_indented hk hne he hi hd) fun out => ?_
    exact ih (drop_succ_of_drop (drop_succ_of_drop hd)) hi
  | block ho he hv hn _ ihbody ihrest =>
    rw [List.cons_append, List.append_assoc, List.cons_append] at hd
    rw [length_section]
    have hmeets := meets_of_drop he hv hn hd hi fun t ht hti => ihbody ht hti
    exact .cons (hmeets.writes_block ho) fun out => ihrest (drop_section_of_drop hd) hi
  | inverse ho he hv hn _ ihbody ihrest =>
    rw [List.cons_append, List.append_assoc, List.cons_append] at hd
    rw [length_section]
    have hmeets := meets_of_drop he hv hn hd hi fun t ht hti => ihbody ht hti
    exact .cons (hmeets.writes_inverse ho) fun out => ihrest (drop_section_of_drop hd) hi

/-- The machine renders the tree of a template. -/
theorem run_nests {tokens : List Token} {pieces : List Piece} (h : Nests tokens pieces)
    (scopes : List Context) :
    run settings expansion tokens.toArray (.start scopes) =
      evaluateAll settings expansion pieces scopes := by
  have hd : tokens.toArray.toList.drop (State.start scopes).cursor = tokens ++ [] := by
    rw [List.append_nil]; rfl
  rw [writes_nests h hd rfl]
  have hend : ∀ out, run settings expansion tokens.toArray
      ((State.start scopes).advance tokens.length out) = .ok out := by
    intro out
    rw [run_of_size_le]
    · simp [State.advance, State.start]
    · simp [State.advance, State.start]
  simp only [hend]
  exact bind_pure _

end

/-- A template at any depth is rendered by evaluating its tree. -/
theorem renderAt_eq_evaluateAt (settings : Settings) (depth : Nat) :
    renderAt settings depth = evaluateAt settings depth := by
  -- By induction on the number of levels that are left for partials.
  induction hl : settings.maxPartialDepth - depth using Nat.strongRecOn generalizing depth with
  | ind levels ih =>
    subst hl
    have hexpand : expandAt settings depth = partialAt settings depth := by
      funext name body scopes
      rw [expandAt, partialAt]
      split
      · rw [ih _ (by omega) _ rfl]
      · rfl
    funext template scopes
    rw [renderAt_eq_renderWith, evaluateAt_eq, renderWith, hexpand]
    cases ht : tokenize settings.delimiters template with
    | error e => rfl
    | ok tokens =>
      cases hc : Sections.check tokens with
      | error e => simp only [hc, bind, Except.bind]
      | ok =>
        simp only [hc, bind, Except.bind]
        exact run_nests (nests_nest (indentersLead_of_tokenize ht) hc) scopes

/-- A partial stands for the same template, whether run or evaluated. -/
theorem expandAt_eq_partialAt (settings : Settings) (depth : Nat) :
    expandAt settings depth = partialAt settings depth := by
  funext name body scopes
  rw [expandAt, partialAt, renderAt_eq_evaluateAt]

/-- The tokens of a template that passes the check have one tree, and the machine renders
    them, at any depth of partials and in any scopes, by evaluating this tree. -/
theorem run_eq_evaluateAll {d : Delimiters} {template : List Char} {tokens : List Token}
    (ht : tokenize d template = .ok tokens) (hc : Sections.check tokens = .ok ()) :
    ∃ pieces, Nests tokens pieces ∧ (∀ other, Nests tokens other → other = pieces) ∧
      ∀ settings depth scopes,
        run settings (expandAt settings depth) tokens.toArray (.start scopes) =
            evaluateAll settings (partialAt settings depth) pieces scopes ∧
          renderAt settings depth = evaluateAt settings depth := by
  have hn := nests_nest (indentersLead_of_tokenize ht) hc
  refine ⟨nest tokens, hn, fun other ho => (nest_eq ho).symm, fun settings depth scopes => ?_⟩
  rw [expandAt_eq_partialAt]
  exact ⟨run_nests hn scopes, renderAt_eq_evaluateAt settings depth⟩

/-- A section about an array starts again for its second item, and a partial is indented like
    its tag. -/
theorem run_eq_evaluateAll_array_and_partial :
    let d : Delimiters := ⟨"<%".toList, "%>".toList⟩
    let template := "<%#a%><<%.%><%/a%><%^b%>!\n<%/b%>\n <%>p%>\n".toList
    let tokens : List Token := [⟨.opener, "a".toList, 1⟩, ⟨.text, "<".toList, 1⟩,
      ⟨.escaped, ".".toList, 1⟩, ⟨.ender, "a".toList, 1⟩, ⟨.inverse, "b".toList, 1⟩,
      ⟨.text, "!\n".toList, 1⟩, ⟨.ender, "b".toList, 2⟩, ⟨.indenter, " ".toList, 3⟩,
      ⟨.expansion, "p".toList, 3⟩]
    let settings : Settings := ⟨d, 1, true⟩
    let data : Context :=
      .object [("a", .array [.string "x", .string "<"]), ("p", .string "q\nr")]
    tokenize d template = .ok tokens ∧ Sections.check tokens = .ok () ∧
      run settings (expandAt settings 0) tokens.toArray (.start [data]) =
        .ok "<x<&lt;!\n q\n r" := by
  have ht : tokenize ⟨"<%".toList, "%>".toList⟩
      "<%#a%><<%.%><%/a%><%^b%>!\n<%/b%>\n <%>p%>\n".toList =
        .ok [⟨.opener, "a".toList, 1⟩, ⟨.text, "<".toList, 1⟩, ⟨.escaped, ".".toList, 1⟩,
          ⟨.ender, "a".toList, 1⟩, ⟨.inverse, "b".toList, 1⟩, ⟨.text, "!\n".toList, 1⟩,
          ⟨.ender, "b".toList, 2⟩, ⟨.indenter, " ".toList, 3⟩, ⟨.expansion, "p".toList, 3⟩] := by
    cbv
  refine ⟨ht, rfl, ?_⟩
  obtain ⟨pieces, hn, _, hrun⟩ := run_eq_evaluateAll ht rfl
  rw [(hrun _ 0 _).1, ← nest_eq hn]
  cbv

end Mustache.Render
