import Mustache.Proofs.Run.Indentation
import Mustache.Proofs.Tree.Compare

/-!
# Exchanging a stretch of tokens

Among the tokens of a template, a stretch without tags of sections is exchanged for another
one, in which sections are nested (`Swap`). Everything behind it gets new indices. With these
in the place of the indices that it has noted down (`Swap.move`), the machine makes the same
steps as before (`Swap.step_move`), until it comes to the stretch. So what comes of the two
templates is related if what comes of the two stretches is, whenever the machine comes to the
old one.

* `Swap.run_target`: a relation that goes through sequences goes through runs.
-/

namespace Mustache.Render

open Template

/-! ## Tokens without sections -/

/-- Each token is a piece of its own. -/
def Leaves (tokens : List Token) (pieces : List Piece) : Prop :=
  tokens.map leaf? = pieces.map some

theorem leaves_cons {token : Token} {tokens : List Token} {pieces : List Piece} :
    Leaves (token :: tokens) pieces ↔
      ∃ piece rest, pieces = piece :: rest ∧ leaf? token = some piece ∧ Leaves tokens rest := by
  cases pieces with
  | nil => simp [Leaves]
  | cons piece pieces => simp [Leaves]

theorem nests_of_leaves {tokens : List Token} {pieces : List Piece} (h : Leaves tokens pieces) :
    Nests tokens pieces := by
  induction tokens generalizing pieces with
  | nil =>
    obtain rfl : pieces = [] := by simpa [Leaves] using h.symm
    exact .nil
  | cons token tokens ih =>
    obtain ⟨piece, rest, rfl, hl, hrest⟩ := leaves_cons.1 h
    exact .leaf hl (ih hrest)

/-- The machine goes through tokens without sections one by one. -/
theorem reaches_leaves {settings : Settings} {expansion : Expansion} {tokens : Array Token}
    {seg post : List Token} {pieces : List Piece} (h : Leaves seg pieces) {s : State} {out : String}
    (hd : tokens.toList.drop s.cursor = seg ++ post) (hi : s.indentation = none)
    (hout : evaluateAll settings expansion pieces s.scopes = .ok out) :
    Reaches settings expansion tokens s (s.advance seg.length out) := by
  induction seg generalizing pieces s out with
  | nil =>
    obtain rfl : pieces = [] := by simpa [Leaves] using h.symm
    cases hout
    rw [State.advance, String.append_empty]
    exact .refl
  | cons token seg ih =>
    obtain ⟨piece, rest, rfl, hl, hrest⟩ := leaves_cons.1 h
    rw [evaluateAll] at hout
    cases hfirst : evaluate settings expansion piece s.scopes with
    | error e => rw [hfirst] at hout; cases hout
    | ok first =>
      rw [hfirst] at hout
      cases hothers : evaluateAll settings expansion rest s.scopes with
      | error e => rw [hothers] at hout; cases hout
      | ok others =>
        rw [hothers] at hout
        cases hout
        have hstep : step settings expansion tokens s token = .ok (s.advance 1 first) := by
          rw [step_leaf hl hi, hfirst]
          rfl
        have hnext := ih (s := s.advance 1 first) hrest (drop_succ_of_drop hd) hi hothers
        rw [State.advance_advance, Nat.add_comm] at hnext
        exact (Reaches.refl.step (getElem?_of_drop hd) hstep).trans hnext

/-! ## The exchange -/

/-- Tokens with a stretch without sections among them, and nested ones to be exchanged for
    these. -/
structure Swap where
  before : List Token
  old : List Token
  new : List Token
  after : List Token
  oldPieces : List Piece
  newPieces : List Piece
  leaves_old : Leaves old oldPieces
  nests_new : Nests new newPieces
  old_ne_nil : old ≠ []

namespace Swap

variable (w : Swap)

/-- The tokens before the exchange. -/
def source : List Token := w.before ++ w.old ++ w.after

/-- The tokens after the exchange. -/
def target : List Token := w.before ++ w.new ++ w.after

/-- The new index of what is not inside the old stretch. -/
def index (i : Nat) : Nat :=
  if i ≤ w.before.length then i else i - w.old.length + w.new.length

/-- No token of the old stretch has the index. -/
def Kept (i : Nat) : Prop := i < w.before.length ∨ w.before.length + w.old.length ≤ i

/-- The index is not inside the old stretch, but may be that of its start. -/
def Outside (i : Nat) : Prop := i ≤ w.before.length ∨ w.before.length + w.old.length ≤ i

/-- What an open section notes down, with new indices. -/
def moveFrame : Frame → Frame
  | .loop items start remaining => .loop items (w.index start) remaining
  | .scope => .scope
  | .pass => .pass

/-- A state of the machine, with new indices. -/
def move (s : State) : State :=
  { s with
    cursor := w.index s.cursor
    opened := s.opened.map fun o => ⟨o.name, w.moveFrame o.frame⟩ }

section

variable {w} {i : Nat}

theorem length_old_pos : 0 < w.old.length := List.length_pos_iff.2 w.old_ne_nil

theorem index_of_le (h : i ≤ w.before.length) : w.index i = i := if_pos h

theorem index_behind (h : w.before.length + w.old.length ≤ i) :
    w.index i = i - w.old.length + w.new.length := by
  have := length_old_pos (w := w)
  exact if_neg (by omega)

theorem Kept.outside (h : w.Kept i) : w.Outside i := h.imp_left Nat.le_of_lt

theorem Kept.outside_succ (h : w.Kept i) : w.Outside (i + 1) := by
  unfold Outside
  rcases h with h | h <;> omega

theorem Outside.kept (h : w.Outside i) (hne : i ≠ w.before.length) : w.Kept i :=
  h.imp_left fun h => Nat.lt_of_le_of_ne h hne

theorem index_succ (h : w.Kept i) : w.index (i + 1) = w.index i + 1 := by
  have := length_old_pos (w := w)
  rcases h with h | h
  · rw [index_of_le h, index_of_le (Nat.le_of_lt h)]
  · rw [index_behind h, index_behind (Nat.le_succ_of_le h)]
    omega

theorem source_getElem?_behind (h : w.before.length + w.old.length ≤ i) :
    w.source[i]? = w.after[i - (w.before.length + w.old.length)]? := by
  rw [source, List.getElem?_append_right (by rwa [List.length_append]), List.length_append]

/-- A token that is kept is found at its new index. -/
theorem getElem?_index (h : w.Kept i) : w.target[w.index i]? = w.source[i]? := by
  rcases h with h | h
  · rw [index_of_le (Nat.le_of_lt h), source, target, List.append_assoc, List.append_assoc,
      List.getElem?_append_left h, List.getElem?_append_left h]
  · have hlen : w.before.length + w.new.length ≤ w.index i := by
      rw [index_behind h]
      omega
    rw [source_getElem?_behind h, target,
      List.getElem?_append_right (by rwa [List.length_append]), List.length_append]
    congr 1
    rw [index_behind h]
    omega

theorem length_target_le (h : w.source.length ≤ i) : w.target.length ≤ w.index i := by
  simp only [source, target, List.length_append] at h ⊢
  rw [index_behind (by omega)]
  omega

theorem drop_source : w.source.toArray.toList.drop w.before.length = w.old ++ w.after := by
  rw [source, List.append_assoc, List.drop_left]

theorem drop_target : w.target.toArray.toList.drop w.before.length = w.new ++ w.after := by
  rw [target, List.append_assoc, List.drop_left]

/-! ## The same steps -/

/-- Counting from outside of the stretch leads to the same closing tag. -/
theorem closingFrom?_index (h : w.Outside i) (depth : Nat) :
    Sections.closingFrom? w.target.toArray depth (w.index i) =
        (Sections.closingFrom? w.source.toArray depth i).map w.index ∧
      ∀ j ∈ Sections.closingFrom? w.source.toArray depth i, w.Kept j := by
  -- By induction on the tokens left. The stretches are nested, so counting goes through them.
  induction hn : w.source.length - i using Nat.strongRecOn generalizing i depth with
  | ind n ih =>
    by_cases hat : i = w.before.length
    · subst hat
      have hlen : w.before.length + w.old.length ≤ w.source.length := by
        simp only [source, List.length_append]
        omega
      have hpos := length_old_pos (w := w)
      have hnew : w.index (w.before.length + w.old.length) = w.before.length + w.new.length := by
        rw [index_behind (Nat.le_refl _)]
        omega
      rw [index_of_le (Nat.le_refl _),
        Sections.closingFrom?_of_balanced (nests_of_leaves w.leaves_old).balanced drop_source,
        Sections.closingFrom?_of_balanced w.nests_new.balanced drop_target, ← hnew]
      exact ih _ (by omega) (.inr (Nat.le_refl _)) depth rfl
    · have hk := h.kept hat
      cases hget : w.source[i]? with
      | none =>
        have hend : w.source.toArray.size ≤ i := List.getElem?_eq_none_iff.1 hget
        have hend' : w.target.toArray.size ≤ w.index i := length_target_le hend
        rw [Sections.closingFrom?_of_size_le hend, Sections.closingFrom?_of_size_le hend']
        exact ⟨rfl, fun _ hj => nomatch hj⟩
      | some token =>
        have hs : w.source.toArray[i]? = some token := by rw [List.getElem?_toArray, hget]
        have ht : w.target.toArray[w.index i]? = some token := by
          rw [List.getElem?_toArray, getElem?_index hk, hget]
        have hlt : i < w.source.length := (List.getElem?_eq_some_iff.1 hget).1
        have hrec := fun depth => ih _ (by omega) hk.outside_succ depth rfl
        rw [index_succ hk] at hrec
        cases hr : token.kind.role with
        | opens =>
          rw [Sections.closingFrom?_opens hs hr, Sections.closingFrom?_opens ht hr]
          exact hrec (depth + 1)
        | stays =>
          rw [Sections.closingFrom?_stays hs hr, Sections.closingFrom?_stays ht hr]
          exact hrec depth
        | closes =>
          cases depth with
          | zero =>
            rw [Sections.closingFrom?_closes hs hr, Sections.closingFrom?_closes ht hr]
            exact ⟨rfl, fun _ hj => Option.some.inj hj ▸ hk⟩
          | succ depth =>
            rw [Sections.closingFrom?_closes_succ hs hr, Sections.closingFrom?_closes_succ ht hr]
            exact hrec depth

end

section

variable {w} {s : State} {token : Token}

theorem moveFrame_loop (items : Array Context) (start remaining : Nat) :
    w.moveFrame (.loop items start remaining) = .loop items (w.index start) remaining := rfl

theorem move_write (h : w.Kept s.cursor) (text : String) :
    (w.move s).write text = w.move (s.write text) := by
  simp [move, State.write, index_succ h]

theorem move_enter (h : w.Kept s.cursor) (name : List Char) (frame : Frame)
    (scopes : List Context) :
    (w.move s).enter name (w.moveFrame frame) scopes = w.move (s.enter name frame scopes) := by
  simp [move, State.enter, index_succ h]

theorem skip_move (h : w.Kept s.cursor) :
    (w.move s).skip w.target.toArray token = (s.skip w.source.toArray token).map w.move := by
  obtain ⟨hclosing, hkept⟩ := closingFrom?_index h.outside_succ 0
  rw [index_succ h] at hclosing
  rw [State.skip, State.skip, Sections.closing?, Sections.closing?]
  simp only [move, hclosing]
  cases hj : Sections.closingFrom? w.source.toArray 0 (s.cursor + 1) with
  | none => rfl
  | some j =>
    have hindex := index_succ (hkept j hj)
    simp [Except.map, move, hindex]

theorem openSection_move (h : w.Kept s.cursor) :
    (w.move s).openSection w.target.toArray token =
      (s.openSection w.source.toArray token).map w.move := by
  have hscopes : (w.move s).scopes = s.scopes := rfl
  have hcursor : (w.move s).cursor + 1 = w.index (s.cursor + 1) := (index_succ h).symm
  rw [State.openSection, State.openSection, hscopes]
  cases Context.resolve s.scopes token.value with
  | none => exact skip_move h
  | some value =>
    cases value with
    | object entries => exact congrArg Except.ok (move_enter h _ .scope _)
    | array items =>
      cases items with
      | nil => exact skip_move h
      | cons first others =>
        simp only [hcursor]
        exact congrArg Except.ok (move_enter h _ (.loop _ _ _) _)
    | scalar value =>
      simp only
      split
      · exact congrArg Except.ok (move_enter h _ .pass _)
      · exact skip_move h

theorem openInverse_move (h : w.Kept s.cursor) :
    (w.move s).openInverse w.target.toArray token =
      (s.openInverse w.source.toArray token).map w.move := by
  have hscopes : (w.move s).scopes = s.scopes := rfl
  rw [State.openInverse, State.openInverse, hscopes]
  split
  · exact skip_move h
  · exact congrArg Except.ok (move_enter h _ .pass _)

theorem close_move (h : w.Kept s.cursor) :
    (w.move s).close token = (s.close token).map w.move := by
  have hopened : (w.move s).opened =
      s.opened.map fun o => ⟨o.name, w.moveFrame o.frame⟩ := rfl
  rw [State.close, State.close, hopened]
  cases ho : s.opened with
  | nil => rfl
  | cons o outer =>
    obtain ⟨name, frame⟩ := o
    simp only [List.map_cons]
    split
    · rfl
    · cases frame with
      | pass => simp [move, moveFrame, Except.map, index_succ h]
      | scope => simp [move, moveFrame, Except.map, index_succ h]
      | loop items start remaining =>
        simp only [moveFrame_loop]
        split
        · simp [move, Except.map, index_succ h]
        · simp [move, moveFrame_loop, Except.map]

/-- Outside of the stretch the machine makes the same step, with new indices. -/
theorem step_move {settings : Settings} {expansion : Expansion} (h : w.Kept s.cursor) :
    step settings expansion w.target.toArray (w.move s) token =
      (step settings expansion w.source.toArray s token).map w.move := by
  have hscopes : (w.move s).scopes = s.scopes := rfl
  rw [step, step, hscopes]
  cases token.kind with
  | text => exact congrArg Except.ok (move_write h _)
  | comment => exact congrArg Except.ok (move_write h _)
  | escaped => exact congrArg Except.ok (move_write h _)
  | unescaped => exact congrArg Except.ok (move_write h _)
  | opener => exact openSection_move h
  | inverse => exact openInverse_move h
  | ender => exact close_move h
  | expansion =>
    simp only [State.expand, hscopes]
    show (expansion _ (partialBody s.indentation _) _).map _ = _
    cases expansion token.value (partialBody s.indentation
        (Context.resolveText s.scopes token.value).toList) s.scopes with
    | error e => rfl
    | ok out =>
      exact congrArg (fun t => Except.ok { t with indentation := none }) (move_write h out)
  | indenter =>
    simp only [State.indent]
    split
    · exact congrArg Except.ok (move_write h _)
    · exact congrArg (fun t => Except.ok { t with indentation := some token.value })
        (move_write h _)

end

/-! ## Related runs -/

/-- No index that the machine has to do with is inside the stretch. -/
def Fits (w : Swap) (s : State) : Prop :=
  w.Outside s.cursor ∧
    ∀ o ∈ s.opened, ∀ items start remaining, o.frame = .loop items start remaining →
      w.Outside start

section

variable {w} {s t : State} {token : Token}

theorem fits_start (scopes : List Context) : w.Fits (.start scopes) :=
  ⟨.inl (Nat.zero_le _), fun _ h => absurd h List.not_mem_nil⟩

theorem fits_enter (hk : w.Kept s.cursor) (hf : w.Fits s) (name : List Char) {frame : Frame}
    (hframe : ∀ items start remaining, frame = .loop items start remaining → start = s.cursor + 1)
    (scopes : List Context) : w.Fits (s.enter name frame scopes) := by
  refine ⟨hk.outside_succ, fun o ho items start remaining h => ?_⟩
  rcases List.mem_cons.1 ho with rfl | ho
  · exact hframe _ _ _ h ▸ hk.outside_succ
  · exact hf.2 o ho _ _ _ h

/-- No move leads into the stretch. -/
theorem fits_of_moves (hk : w.Kept s.cursor) (hf : w.Fits s)
    (hm : Moves w.source.toArray s token t) : w.Fits t := by
  cases hm with
  | stay _ hcursor _ hopened =>
    rw [Fits, hcursor, hopened]
    exact ⟨hk.outside_succ, hf.2⟩
  | skip _ hi => exact ⟨((closingFrom?_index hk.outside_succ 0).2 _ hi).outside_succ, hf.2⟩
  | pass => exact fits_enter hk hf _ (by simp) _
  | scope => exact fits_enter hk hf _ (by simp) _
  | loop =>
    refine fits_enter hk hf _ (fun items start remaining h => ?_) _
    cases h
    rfl
  | leave _ ho =>
    exact ⟨hk.outside_succ, fun o h => hf.2 o (ho ▸ List.mem_cons_of_mem _ h)⟩
  | @again items start remaining item outer _ ho _ =>
    have hstart : w.Outside start := hf.2 _ (ho ▸ List.mem_cons_self) _ _ _ rfl
    refine ⟨hstart, fun o h => ?_⟩
    rcases List.mem_cons.1 h with rfl | h
    · rintro _ _ _ ⟨⟩
      exact hstart
    · exact hf.2 o (ho ▸ List.mem_cons_of_mem _ h)

variable {settings : Settings} {expansion : Expansion} {scopes : List Context}
  {H : Except TemplateError String → Except TemplateError String → Prop}

/-- Once the old stretch is gone through, the machine is further on. -/
theorem potential_advance_lt (hat : s.cursor = w.before.length) (out : String) :
    (s.advance w.old.length out).potential w.source.toArray.size <
      s.potential w.source.toArray.size := by
  have hpos := length_old_pos (w := w)
  refine potential_lt ?_ ?_ (Nat.le_refl _) (Nat.le_refl _)
  · simp only [List.size_toArray, source, List.length_append]
    omega
  · simp only [State.advance]
    omega

/-- Behind the stretches the machine goes on with new indices. -/
theorem advance_move (hat : s.cursor = w.before.length) (out : String) :
    (w.move s).advance w.new.length out = w.move (s.advance w.old.length out) := by
  have hnew : w.index (w.before.length + w.old.length) = w.before.length + w.new.length := by
    rw [index_behind (Nat.le_refl _)]
    omega
  simp [State.advance, move, hat, hnew, index_of_le (Nat.le_refl _)]

/-- What comes of the tokens before and after the exchange is related, if what comes of the two
    stretches is, whenever the machine comes to the old one. -/
theorem run_target (hH : Sequential H) (hc : Sections.check w.source = .ok ())
    (hi : IndentersLead w.source) (hb : indentationAt w.source w.before.length = none)
    (hat : ∀ s, Reaches settings expansion w.source.toArray (.start scopes) s →
      s.cursor = w.before.length →
        H (evaluateAll settings expansion w.oldPieces s.scopes)
          (evaluateAll settings expansion w.newPieces s.scopes)) :
    H (run settings expansion w.source.toArray (.start scopes))
      (run settings expansion w.target.toArray (.start scopes)) := by
  have hmove : ∀ s, Reaches settings expansion w.source.toArray (.start scopes) s → w.Fits s →
      H (run settings expansion w.source.toArray s)
        (run settings expansion w.target.toArray (w.move s)) := by
    intro s hreach hf
    -- By induction on the steps that are left before the exchange.
    induction hn : s.potential w.source.toArray.size using Nat.strongRecOn generalizing s with
    | ind n ih =>
      subst hn
      by_cases hcursor : s.cursor = w.before.length
      · have hnone : s.indentation = none := by
          rw [hreach.indentation_eq hc hi, hcursor, hb]
        have hold : Writes settings expansion w.source.toArray s w.old.length _ :=
          writes_nests (nests_of_leaves w.leaves_old) (by rw [hcursor]; exact drop_source) hnone
        have hnew : Writes settings expansion w.target.toArray (w.move s) w.new.length _ :=
          writes_nests w.nests_new
            (by rw [move, hcursor, index_of_le (Nat.le_refl _)]; exact drop_target) hnone
        rw [hold, hnew]
        refine hH.bind (hat s hreach hcursor) fun out hout => ?_
        have hpass : Reaches settings expansion w.source.toArray s _ :=
          reaches_leaves w.leaves_old (by rw [hcursor]; exact drop_source) hnone hout
        rw [advance_move hcursor]
        refine ih _ (potential_advance_lt hcursor out) _ (hreach.trans hpass) ⟨.inr ?_, hf.2⟩ rfl
        simp [State.advance, hcursor]
      · have hk := hf.1.kept hcursor
        cases hget : w.source[s.cursor]? with
        | none =>
          have hend : w.source.length ≤ s.cursor := List.getElem?_eq_none_iff.1 hget
          have hs : w.source.toArray.size ≤ s.cursor := by simpa using hend
          have ht : w.target.toArray.size ≤ (w.move s).cursor := by
            simpa [move] using length_target_le hend
          rw [run_of_size_le settings expansion hs, run_of_size_le settings expansion ht]
          exact hH.refl _
        | some token =>
          have hs : w.source.toArray[s.cursor]? = some token := by
            rw [List.getElem?_toArray, hget]
          have ht : w.target.toArray[(w.move s).cursor]? = some token := by
            rw [List.getElem?_toArray, move, getElem?_index hk, hget]
          rw [run_of_getElem? settings expansion hs, run_of_getElem? settings expansion ht,
            step_move hk]
          cases hstep : step settings expansion w.source.toArray s token with
          | error e => exact hH.refl _
          | ok t =>
            exact ih _ (potential_step_lt (Array.getElem?_eq_some_iff.1 hs).1 hstep) t
              (hreach.step hs hstep) (fits_of_moves hk hf (moves_of_step hstep)) rfl
  have hstart := hmove _ .refl (fits_start scopes)
  rwa [move, State.start, index_of_le (Nat.zero_le _), List.map_nil] at hstart

end

end Swap

end Mustache.Render
