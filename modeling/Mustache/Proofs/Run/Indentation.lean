import Mustache.Proofs.Indenters
import Mustache.Proofs.Run.Failure

/-!
# The indentation of a partial

The machine takes note of an indentation at one token and uses it at the next one. No jump
comes between the two: behind a jump there is an opening tag or a closing one. So in every
state of a run the indentation that is noted is the one right in front of the cursor
(`Reaches.indentation_eq`), and a partial is indented by the blanks on its own line.
-/

namespace Mustache.Render

open Template

/-- The blanks of the indenter right in front of an index, if there is one. -/
def indentationAt (tokens : List Token) : Nat → Option (List Char)
  | 0 => none
  | i + 1 => (tokens[i]?.filter (·.kind = .indenter)).map (·.value)

section

variable {tokens : List Token} {token : Token} {i : Nat}

theorem indentationAt_succ_eq_none (h : tokens[i]? = some token) (hk : token.kind ≠ .indenter) :
    indentationAt tokens (i + 1) = none := by
  simp [indentationAt, h, hk]

theorem indentationAt_succ_eq_some (h : tokens[i]? = some token) (hk : token.kind = .indenter) :
    indentationAt tokens (i + 1) = some token.value := by
  simp [indentationAt, h, hk]

theorem indentationAt_eq_none (hi : IndentersLead tokens) (h : tokens[i]? = some token)
    (hk : token.kind ≠ .expansion) : indentationAt tokens i = none := by
  cases i with
  | zero => rfl
  | succ i =>
    cases hp : tokens[i]? with
    | none => simp [indentationAt, hp]
    | some previous =>
      refine indentationAt_succ_eq_none hp fun hpk => ?_
      obtain ⟨-, -, next, hnext, hn⟩ := hi.exists_of_indenter hp hpk
      rw [h] at hnext
      cases hnext
      exact hk hn

/-- Behind whole lines nothing is indented. -/
theorem indentationAt_length (hi : IndentersLead tokens) (later : List Token) :
    indentationAt (tokens ++ later) tokens.length = none := by
  cases hl : tokens.length with
  | zero => rfl
  | succ i =>
    have hlt : i < tokens.length := by omega
    have hget : tokens[i]? = some tokens[i] := List.getElem?_eq_getElem hlt
    refine indentationAt_succ_eq_none ((List.getElem?_append_left hlt).trans hget) fun hk => ?_
    obtain ⟨-, -, _, hnext, -⟩ := hi.exists_of_indenter hget hk
    have := (List.getElem?_eq_some_iff.1 hnext).1
    omega

/-- A section is passed over to a closing tag. -/
theorem kind_of_closingFrom? {tokens : Array Token} {depth i j : Nat}
    (h : Sections.closingFrom? tokens depth i = some j) :
    ∃ token, tokens[j]? = some token ∧ token.kind = .ender := by
  fun_induction Sections.closingFrom? tokens depth i with
  | case1 depth i hlt hk ih => exact ih h
  | case2 depth i hlt hk ih => exact ih h
  | case3 i hlt hk =>
    cases h
    exact ⟨_, Array.getElem?_eq_getElem hlt, hk⟩
  | case4 i hlt hk depth ih => exact ih h
  | case5 depth i hlt _ _ _ ih => exact ih h
  | case6 => cases h

variable {settings : Settings} {expansion : Expansion} {s t : State}

/-- What a step notes down: the blanks of an indenter, nothing behind a partial, and otherwise
    what has been noted before. -/
theorem indentation_of_step {tokens : Array Token}
    (h : step settings expansion tokens s token = .ok t) :
    t.indentation =
      match token.kind with
      | .expansion => none
      | .indenter => if token.value.isEmpty then s.indentation else some token.value
      | _ => s.indentation := by
  have hm := moves_of_step h
  rw [step] at h
  cases hk : token.kind with
  | text | comment | escaped | unescaped =>
    rw [hk] at h
    cases h
    rfl
  | opener | inverse | ender => exact (hm.quiet (by simp [hk, Kind.role])).1
  | expansion =>
    rw [hk] at h
    obtain ⟨out, -, rfl⟩ := map_eq_ok_iff.1 h
    rfl
  | indenter =>
    rw [hk] at h
    cases h
    rw [State.indent]
    split <;> rfl

/-- After a step at an opening or closing tag, one of these is right in front of the cursor. -/
theorem indentationAt_of_moves (ha : Aligned tokens s)
    (hget : tokens[s.cursor]? = some token) (hk : token.kind ≠ .indenter)
    (hm : Moves tokens.toArray s token t) : indentationAt tokens t.cursor = none := by
  have hnext : indentationAt tokens (s.cursor + 1) = none := indentationAt_succ_eq_none hget hk
  cases hm with
  | stay _ hcursor => rw [hcursor]; exact hnext
  | skip _ hi =>
    obtain ⟨ender, hender, hke⟩ := kind_of_closingFrom? hi
    rw [List.getElem?_toArray] at hender
    exact indentationAt_succ_eq_none hender (by simp [hke])
  | pass | scope | loop | leave => exact hnext
  | again _ ho =>
    -- The section starts again right behind its opening tag.
    rw [Aligned, ho] at ha
    obtain ⟨k, outer, ⟨opener, hopener, hr, _, hstart⟩, -, -⟩ := List.forall₂_cons_right_iff.1 ha
    obtain rfl := hstart _ _ _ rfl
    refine indentationAt_succ_eq_none hopener fun hko => ?_
    rw [hko] at hr
    cases hr

/-- In every state of a run, the indentation that is noted is the one in front of the cursor. -/
theorem Reaches.indentation_eq (hc : Sections.check tokens = .ok ()) (hi : IndentersLead tokens)
    {scopes : List Context}
    (h : Reaches settings expansion tokens.toArray (.start scopes) s) :
    s.indentation = indentationAt tokens s.cursor := by
  induction h with
  | refl => rfl
  | @step s t token hreach hget hstep ih =>
    rw [List.getElem?_toArray] at hget
    have hm := moves_of_step hstep
    have hnoted := indentation_of_step hstep
    by_cases hindenter : token.kind = .indenter
    · have hne := (hi.exists_of_indenter hget hindenter).1
      have hstay : t.cursor = s.cursor + 1 := by
        cases hm with
        | stay _ hcursor => exact hcursor
        | skip hr | pass hr | scope hr | loop hr | leave hr | again hr =>
          simp [hindenter, Kind.role] at hr
      simp [hstay, indentationAt_succ_eq_some hget hindenter, hnoted, hindenter, hne]
    · rw [indentationAt_of_moves (hreach.aligned hc) hget hindenter hm, hnoted]
      by_cases hexpansion : token.kind = .expansion
      · rw [hexpansion]
      · rw [indentationAt_eq_none hi hget hexpansion] at ih
        cases hk : token.kind <;> simp_all

end

end Mustache.Render
