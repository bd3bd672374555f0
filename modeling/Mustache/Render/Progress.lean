import Mustache.Context.Width
import Mustache.Render.Machine

/-!
# The machine stops

A closing tag may take the cursor back, so neither the cursor nor the number of open
sections tells how far a run has come. What does is its *potential*: a bound on the
steps still to be made. With arrays shorter than `k`, a template of which `n` tokens
are left takes at most `k ^ n` steps, as each section in it is run through less than
`k` times; and every open section that is to be started again adds what it takes from
its start. Each step lowers the potential (`potential_step_lt`).
-/

namespace Mustache.Render

open Template

/-- The greatest width of the items that the open sections run through. -/
def widthOpened : List Opened → Nat
  | [] => 0
  | ⟨_, .loop items _ _⟩ :: outer => max (Context.widthItems items.toList) (widthOpened outer)
  | _ :: outer => widthOpened outer

/-- The steps that the open sections add by being started again. -/
def loadOpened (k size : Nat) : List Opened → Nat
  | [] => 0
  | ⟨_, .loop _ start remaining⟩ :: outer =>
    (remaining - 1) * Nat.pow k (size - start) + loadOpened k size outer
  | _ :: outer => loadOpened k size outer

/-- A number greater than the length of every array that a run can come across. -/
def State.base (s : State) : Nat :=
  max (Context.widthItems s.scopes) (widthOpened s.opened) + 2

/-- A bound on the steps of a run over `size` tokens. -/
def State.potential (size : Nat) (s : State) : Nat :=
  Nat.pow s.base (size - s.cursor) + loadOpened s.base size s.opened

theorem loadOpened_mono {k l : Nat} (size : Nat) (h : k ≤ l) (opened : List Opened) :
    loadOpened k size opened ≤ loadOpened l size opened := by
  fun_induction loadOpened k size opened with
  | case1 => exact Nat.le_refl _
  | case2 name items start remaining outer ih =>
    rw [loadOpened]
    exact Nat.add_le_add (Nat.mul_le_mul_left _ (Nat.pow_le_pow_left h _)) ih
  | case3 first outer hne ih =>
    rw [loadOpened]
    · exact ih
    · exact hne

/-- A state further on, with no more to start again, has a lower potential. -/
theorem potential_lt {size : Nat} {s t : State} (hs : s.cursor < size)
    (hc : s.cursor < t.cursor) (hb : t.base ≤ s.base)
    (ho : loadOpened s.base size t.opened ≤ loadOpened s.base size s.opened) :
    t.potential size < s.potential size := by
  have hpow : Nat.pow t.base (size - t.cursor) < Nat.pow s.base (size - s.cursor) :=
    Nat.lt_of_le_of_lt (Nat.pow_le_pow_left hb _)
      (Nat.pow_lt_pow_right (by simp [State.base]) (by omega))
  have := loadOpened_mono size hb t.opened
  unfold State.potential
  omega

theorem potential_write_lt {size : Nat} {s : State} (hs : s.cursor < size) (text : String) :
    (s.write text).potential size < s.potential size :=
  potential_lt hs (Nat.lt_succ_self _) (Nat.le_refl _) (Nat.le_refl _)

theorem potential_skip_lt {tokens : Array Token} {s t : State} {token : Token}
    (hs : s.cursor < tokens.size) (h : s.skip tokens token = .ok t) :
    t.potential tokens.size < s.potential tokens.size := by
  unfold State.skip at h
  split at h
  · exact absurd h (by simp)
  · next i hi =>
    have := Sections.le_of_closingFrom? hi
    injection h with h
    subst h
    exact potential_lt hs (by simp only; omega) (Nat.le_refl _) (Nat.le_refl _)

theorem widthOpened_le_cons (first : Opened) (outer : List Opened) :
    widthOpened outer ≤ widthOpened (first :: outer) := by
  unfold widthOpened
  split <;> grind [widthOpened]

theorem loadOpened_le_cons (k size : Nat) (first : Opened) (outer : List Opened) :
    loadOpened k size outer ≤ loadOpened k size (first :: outer) := by
  unfold loadOpened
  split <;> grind [loadOpened]

theorem widthItems_tail_le (scopes : List Context) :
    Context.widthItems scopes.tail ≤ Context.widthItems scopes := by
  cases scopes with
  | nil => exact Nat.le_refl _
  | cons c cs => exact Nat.le_max_right ..

theorem potential_openSection_lt {tokens : Array Token} {s t : State} {token : Token}
    (hs : s.cursor < tokens.size) (h : s.openSection tokens token = .ok t) :
    t.potential tokens.size < s.potential tokens.size := by
  unfold State.openSection at h
  split at h
  · exact potential_skip_lt hs h
  · next entries hr =>
    have hw := Context.width_resolve_le hr
    injection h with h
    subst h
    refine potential_lt hs (Nat.lt_succ_self _) ?_ (Nat.le_refl _)
    simp only [State.base, State.enter, Context.widthItems, widthOpened]
    omega
  · exact potential_skip_lt hs h
  · next first others hr =>
    have hw := Context.width_resolve_le hr
    injection h with h
    subst h
    simp only [Context.width, Context.widthItems, List.length_cons] at hw
    have hb : State.base (s.enter token.value (.loop (first :: others).toArray (s.cursor + 1)
        (first :: others).toArray.size) (first :: s.scopes)) ≤ s.base := by
      simp only [State.base, State.enter, Context.widthItems, widthOpened]
      omega
    -- The first item is at hand, the others are still to come.
    have hk : others.length + 1 < s.base := by
      simp only [State.base]
      omega
    have hd : tokens.size - s.cursor = tokens.size - (s.cursor + 1) + 1 := by omega
    have hpos : 0 < s.base ^ (tokens.size - (s.cursor + 1)) :=
      Nat.pow_pos (by simp [State.base])
    have hpow := Nat.pow_le_pow_left hb (tokens.size - (s.cursor + 1))
    have hload := loadOpened_mono tokens.size hb s.opened
    have hloop := Nat.mul_le_mul_left others.length hpow
    have hfirst := Nat.mul_lt_mul_of_pos_right hk hpos
    simp only [State.potential, Nat.pow_eq]
    rw [hd, Nat.pow_succ, Nat.mul_comm _ s.base]
    rw [Nat.add_mul, Nat.one_mul] at hfirst
    simp only [State.enter, loadOpened, List.size_toArray, List.length_cons,
      Nat.add_sub_cancel, Nat.pow_eq] at hpow hload hloop ⊢
    omega
  · split at h
    · injection h with h
      subst h
      exact potential_lt hs (Nat.lt_succ_self _) (Nat.le_refl _) (Nat.le_refl _)
    · exact potential_skip_lt hs h

theorem potential_openInverse_lt {tokens : Array Token} {s t : State} {token : Token}
    (hs : s.cursor < tokens.size) (h : s.openInverse tokens token = .ok t) :
    t.potential tokens.size < s.potential tokens.size := by
  unfold State.openInverse at h
  split at h
  · exact potential_skip_lt hs h
  · injection h with h
    subst h
    exact potential_lt hs (Nat.lt_succ_self _) (Nat.le_refl _) (Nat.le_refl _)

theorem potential_close_lt {size : Nat} {s t : State} {token : Token}
    (hs : s.cursor < size) (h : s.close token = .ok t) :
    t.potential size < s.potential size := by
  unfold State.close at h
  split at h
  · exact absurd h (by simp)
  · next name frame outer ho =>
    have hw := widthOpened_le_cons ⟨name, frame⟩ outer
    have hl := loadOpened_le_cons s.base size ⟨name, frame⟩ outer
    have ht := widthItems_tail_le s.scopes
    rw [← ho] at hw hl
    have hout : ∀ scopes : List Context,
        Context.widthItems scopes ≤ Context.widthItems s.scopes →
        State.potential size { s with opened := outer, scopes, cursor := s.cursor + 1 } <
          s.potential size := fun scopes hscopes =>
      potential_lt hs (Nat.lt_succ_self _) (by simp only [State.base]; omega) hl
    split at h
    · exact absurd h (by simp)
    · split at h
      · injection h with h
        exact h ▸ hout s.scopes (Nat.le_refl _)
      · injection h with h
        exact h ▸ hout s.scopes.tail ht
      · next items start remaining =>
        split at h
        · injection h with h
          exact h ▸ hout s.scopes.tail ht
        · next item hi =>
          injection h with h
          subst h
          obtain ⟨hlt, hget⟩ := Array.getElem?_eq_some_iff.1 hi
          have hitem : item.width ≤ Context.widthItems items.toList :=
            Context.width_le_widthItems (hget ▸ Array.mem_toList_iff.2 (Array.getElem_mem hlt))
          simp only [ho, widthOpened] at hw
          have hb : State.base { s with
              opened := ⟨name, .loop items start (remaining - 1)⟩ :: outer
              scopes := item :: s.scopes.tail
              cursor := start } ≤ s.base := by
            simp only [State.base, Context.widthItems, widthOpened, ho]
            omega
          -- One of the runs still to come becomes the current one.
          have hr : remaining - 1 = remaining - 1 - 1 + 1 := by omega
          have hpos : 0 < s.base ^ (size - s.cursor) := Nat.pow_pos (by simp [State.base])
          have hpow := Nat.pow_le_pow_left hb (size - start)
          have hload := loadOpened_mono size hb outer
          have hloop := Nat.mul_le_mul_left (remaining - 1 - 1) hpow
          unfold State.potential
          rw [ho]
          simp only [loadOpened, Nat.pow_eq] at hpow hload hloop ⊢
          rw [hr, Nat.add_mul, Nat.one_mul, ← hr]
          omega

/-- Each step lowers the potential. -/
theorem potential_step_lt {settings : Settings} {expansion : Expansion} {tokens : Array Token}
    {s t : State} {token : Token} (hs : s.cursor < tokens.size)
    (h : step settings expansion tokens s token = .ok t) :
    t.potential tokens.size < s.potential tokens.size := by
  unfold step at h
  split at h
  · exact Except.ok.inj h ▸ potential_write_lt hs _
  · exact Except.ok.inj h ▸ potential_write_lt hs _
  · exact Except.ok.inj h ▸ potential_write_lt hs _
  · exact Except.ok.inj h ▸ potential_write_lt hs _
  · exact potential_openSection_lt hs h
  · exact potential_openInverse_lt hs h
  · exact potential_close_lt hs h
  · unfold State.expand Except.map at h
    simp only at h
    split at h
    · exact absurd h (by simp)
    · exact Except.ok.inj h ▸
        potential_lt hs (Nat.lt_succ_self _) (Nat.le_refl _) (Nat.le_refl _)
  · unfold State.indent at h
    split at h
    · exact Except.ok.inj h ▸ potential_write_lt hs _
    · exact Except.ok.inj h ▸
        potential_lt hs (Nat.lt_succ_self _) (Nat.le_refl _) (Nat.le_refl _)

end Mustache.Render
