import Mathlib.Data.List.Induction
import Mustache.Proofs.Sections

/-!
# Balanced tokens

Tokens are *balanced* if each opening tag among them has a closing tag of the same name behind
it, with balanced tokens in between, and there are no other closing tags. This is a grammar
(`Balanced`), which does not say how tokens are gone through. Tokens that may still become
balanced leave some sections open (`LeavesOpen`), and a closing tag breaks the nesting if with
it they cannot become balanced any more (`BreaksAt`).

* `check_eq_ok_iff`: the check accepts the balanced tokens and no others;
* `check_reports_first_break`: what it reports of others.
-/

namespace Mustache.Template

/-- Tokens whose opening and closing tags pair up by name. -/
inductive Balanced : List Token → Prop
  | nil : Balanced []
  | other {token : Token} {rest : List Token} :
      token.kind.role = .stays → Balanced rest → Balanced (token :: rest)
  | block {opener ender : Token} {inner rest : List Token} :
      opener.kind.role = .opens → ender.kind.role = .closes → opener.value = ender.value →
      Balanced inner → Balanced rest → Balanced (opener :: (inner ++ ender :: rest))

/-- Tokens that leave some sections open, the innermost first, and are balanced before, between
    and behind their opening tags. -/
inductive LeavesOpen : List Token → List Token → Prop
  | balanced {tokens : List Token} : Balanced tokens → LeavesOpen [] tokens
  | opens {opener : Token} {opened outer inner : List Token} :
      LeavesOpen opened outer → opener.kind.role = .opens → Balanced inner →
      LeavesOpen (opener :: opened) (outer ++ opener :: inner)

/-- The closing tag at an index breaks the nesting: with it, the tokens cannot be made balanced
    by any that might follow. -/
def BreaksAt (tokens : List Token) (i : Nat) : Prop :=
  (∃ ender, tokens[i]? = some ender ∧ ender.kind.role = .closes) ∧
    ∀ later, ¬ Balanced (tokens.take (i + 1) ++ later)

/-- The error for a closing tag that breaks the nesting where some sections are open. -/
def nestingError (ender : Token) : List Token → TemplateError
  | [] => .unexpectedEnder ender.value ender.line
  | innermost :: _ => .mismatchedEnder innermost.value ender.value ender.line

section

variable {token opener ender : Token} {s t opened rest : List Token}

theorem Balanced.append (hs : Balanced s) (ht : Balanced t) : Balanced (s ++ t) := by
  induction hs with
  | nil => exact ht
  | other hr _ ih => exact .other hr ih
  | block ho he hv hinner _ _ ihrest =>
    rw [List.cons_append, List.append_assoc, List.cons_append]
    exact .block ho he hv hinner ihrest

/-- Balanced tokens may be added to those that leave sections open. -/
theorem LeavesOpen.append (hs : LeavesOpen opened s) (ht : Balanced t) :
    LeavesOpen opened (s ++ t) := by
  cases hs with
  | balanced hs => exact .balanced (hs.append ht)
  | opens houter hr hinner =>
    rw [List.append_assoc, List.cons_append]
    exact .opens houter hr (hinner.append ht)

theorem LeavesOpen.append_stays (hs : LeavesOpen opened s) (hr : token.kind.role = .stays) :
    LeavesOpen opened (s ++ [token]) :=
  hs.append (.other hr .nil)

theorem LeavesOpen.append_opens (hs : LeavesOpen opened s) (hr : token.kind.role = .opens) :
    LeavesOpen (token :: opened) (s ++ [token]) :=
  .opens hs hr .nil

/-- A closing tag that names the innermost open section closes it. -/
theorem LeavesOpen.append_closes (hs : LeavesOpen (opener :: opened) s)
    (hr : ender.kind.role = .closes) (hv : opener.value = ender.value) :
    LeavesOpen opened (s ++ [ender]) := by
  cases hs with
  | opens houter ho hinner =>
    rw [List.append_assoc, List.cons_append]
    exact houter.append (.block ho hr hv hinner .nil)

/-- Tokens that leave sections open become balanced with the closing tags of these. -/
theorem LeavesOpen.exists_balanced (hs : LeavesOpen opened s) :
    ∃ later, Balanced (s ++ later) := by
  induction opened generalizing s with
  | nil =>
    cases hs with
    | balanced hs => exact ⟨[], by rwa [List.append_nil]⟩
  | cons opener opened ih =>
    have hclosed : LeavesOpen opened (s ++ [⟨.ender, opener.value, opener.line⟩]) :=
      hs.append_closes rfl rfl
    obtain ⟨later, hlater⟩ := ih hclosed
    rw [List.append_assoc] at hlater
    exact ⟨_, hlater⟩

section

variable {tokens : Array Token} {i : Nat}

theorem getElem?_of_drop (h : tokens.toList.drop i = token :: rest) : tokens[i]? = some token := by
  rw [← Array.getElem?_toList, ← List.head?_drop, h, List.head?_cons]

theorem drop_add_of_drop (h : tokens.toList.drop i = s ++ rest) :
    tokens.toList.drop (i + s.length) = rest := by
  rw [← List.drop_drop, h, List.drop_left]

theorem drop_succ_of_drop (h : tokens.toList.drop i = token :: rest) :
    tokens.toList.drop (i + 1) = rest := by
  rw [← List.drop_drop, h, List.drop_one, List.tail_cons]

end

namespace Sections

/-! ## The check goes through balanced tokens -/

theorem checkFrom_closes_of_eq (hr : ender.kind.role = .closes) (hv : opener.value = ender.value) :
    checkFrom (opener :: opened) (ender :: rest) = checkFrom opened rest := by
  simp [checkFrom, role_eq_closes_iff.1 hr, hv]

theorem checkFrom_append_of_balanced (hs : Balanced s) (opened rest : List Token) :
    checkFrom opened (s ++ rest) = checkFrom opened rest := by
  induction hs generalizing opened rest with
  | nil => rfl
  | other hr _ ih => rw [List.cons_append, checkFrom_stays hr, ih]
  | block ho he hv _ _ ihinner ihrest =>
    rw [List.cons_append, List.append_assoc, List.cons_append, checkFrom_opens ho, ihinner,
      checkFrom_closes_of_eq he hv, ihrest]

/-- The check finds those sections open that tokens leave open. -/
theorem check_append_of_leavesOpen (hs : LeavesOpen opened s) (rest : List Token) :
    check (s ++ rest) = checkFrom opened rest := by
  induction hs generalizing rest with
  | balanced hs => exact checkFrom_append_of_balanced hs [] rest
  | opens _ hr hinner ih =>
    rw [List.append_assoc, List.cons_append, ih, checkFrom_opens hr,
      checkFrom_append_of_balanced hinner]

theorem check_of_leavesOpen_cons (hs : LeavesOpen (opener :: opened) s) :
    check s = .error (.unclosedSection opener.value opener.line) := by
  have happend := check_append_of_leavesOpen hs []
  rwa [List.append_nil] at happend

/-- A closing tag that does not name the innermost open section is reported. -/
theorem check_of_leavesOpen_closes (hs : LeavesOpen opened s) (hr : ender.kind.role = .closes)
    (hv : ∀ innermost ∈ opened.head?, innermost.value ≠ ender.value) (rest : List Token) :
    check (s ++ ender :: rest) = .error (nestingError ender opened) := by
  have hk := role_eq_closes_iff.1 hr
  rw [check_append_of_leavesOpen hs]
  cases opened with
  | nil => simp [checkFrom, hk, nestingError]
  | cons innermost outer => simp [checkFrom, hk, nestingError, hv innermost rfl]

theorem check_of_balanced (hs : Balanced s) : check s = .ok () := by
  have happend := checkFrom_append_of_balanced hs [] []
  rwa [List.append_nil] at happend

/-! ## Counting goes through balanced tokens -/

section

variable {tokens : Array Token} {inner : List Token} {i : Nat}

/-- Counting does not stop among balanced tokens. -/
theorem closingFrom?_of_balanced (hs : Balanced s) (hi : tokens.toList.drop i = s ++ t)
    (depth : Nat) : closingFrom? tokens depth i = closingFrom? tokens depth (i + s.length) := by
  induction hs generalizing i depth t with
  | nil => rfl
  | other hr _ ih =>
    rw [closingFrom?_stays (getElem?_of_drop hi) hr, ih (drop_succ_of_drop hi), List.length_cons,
      Nat.add_assoc, Nat.add_comm 1]
  | block ho he _ _ _ ihinner ihrest =>
    -- Up to the closing tag one more section is open.
    rw [List.cons_append, List.append_assoc] at hi
    have hinner := drop_succ_of_drop hi
    have hender := drop_add_of_drop hinner
    rw [closingFrom?_opens (getElem?_of_drop hi) ho, ihinner hinner,
      closingFrom?_closes_succ (getElem?_of_drop hender) he, ihrest (drop_succ_of_drop hender)]
    congr 1
    rw [List.length_cons, List.length_append, List.length_cons]
    omega

/-- A section is passed over to its closing tag, right behind what it holds. -/
theorem closing?_of_balanced (hs : Balanced inner) (hr : ender.kind.role = .closes)
    (hi : tokens.toList.drop i = opener :: (inner ++ ender :: rest)) :
    closing? tokens i = some (i + 1 + inner.length) := by
  have hinner := drop_succ_of_drop hi
  rw [closing?, closingFrom?_of_balanced hs hinner,
    closingFrom?_closes (getElem?_of_drop (drop_add_of_drop hinner)) hr]

end

/-! ## Up to the first break -/

/-- Tokens leave some sections open, unless there is a closing tag among them that does not name
    the innermost section that those before it leave open. -/
theorem leavesOpen_or_exists (tokens : List Token) :
    (∃ opened, LeavesOpen opened tokens) ∨
      ∃ before ender after opened, tokens = before ++ ender :: after ∧
        LeavesOpen opened before ∧ ender.kind.role = .closes ∧
        ∀ innermost ∈ opened.head?, innermost.value ≠ ender.value := by
  induction tokens using List.reverseRecOn with
  | nil => exact .inl ⟨[], .balanced .nil⟩
  | append_singleton s token ih =>
    rcases ih with ⟨opened, hs⟩ | ⟨before, ender, after, opened, rfl, hbefore, hr, hv⟩
    · cases hr : token.kind.role with
      | stays => exact .inl ⟨opened, hs.append_stays hr⟩
      | opens => exact .inl ⟨token :: opened, hs.append_opens hr⟩
      | closes =>
        by_cases hv : ∀ innermost ∈ opened.head?, innermost.value ≠ token.value
        · exact .inr ⟨s, token, [], opened, rfl, hs, hr, hv⟩
        · cases opened with
          | nil => exact absurd (fun _ h => nomatch h) hv
          | cons innermost outer =>
            have heq : innermost.value = token.value := by simpa using hv
            exact .inl ⟨outer, hs.append_closes hr heq⟩
    · exact .inr ⟨before, ender, after ++ [token], opened, by simp, hbefore, hr, hv⟩

/-- The check accepts the balanced tokens and no others. -/
theorem check_eq_ok_iff {tokens : List Token} : check tokens = .ok () ↔ Balanced tokens := by
  refine ⟨fun h => ?_, check_of_balanced⟩
  rcases leavesOpen_or_exists tokens with ⟨opened, hs⟩ | ⟨before, ender, after, opened, rfl, hbefore,
    hr, hv⟩
  · cases opened with
    | nil => cases hs with | balanced hs => exact hs
    | cons innermost outer =>
      rw [check_of_leavesOpen_cons hs] at h
      cases h
  · rw [check_of_leavesOpen_closes hbefore hr hv] at h
    cases h

/-- A closing tag that does not name the innermost open section breaks the nesting. -/
theorem breaksAt_length (hs : LeavesOpen opened s) (hr : ender.kind.role = .closes)
    (hv : ∀ innermost ∈ opened.head?, innermost.value ≠ ender.value) (after : List Token) :
    BreaksAt (s ++ ender :: after) s.length := by
  refine ⟨⟨ender, by simp, hr⟩, fun later h => ?_⟩
  have htake : (s ++ ender :: after).take (s.length + 1) = s ++ [ender] := by
    rw [List.take_length_add_append, List.take_succ_cons, List.take_zero]
  -- The check would have to accept it.
  have hok := check_of_balanced h
  rw [htake, List.append_assoc, List.singleton_append, check_of_leavesOpen_closes hs hr hv] at hok
  cases hok

/-- A closing tag that breaks the nesting does not name the innermost open section. -/
theorem ne_of_breaksAt {tokens : List Token} {i : Nat} (hget : tokens[i]? = some ender)
    (hs : LeavesOpen opened (tokens.take i)) (h : BreaksAt tokens i) :
    ∀ innermost ∈ opened.head?, innermost.value ≠ ender.value := by
  obtain ⟨⟨ender', hget', hr⟩, hbreaks⟩ := h
  obtain rfl := Option.some.inj (hget.symm.trans hget')
  intro innermost hhead hv
  cases opened with
  | nil => cases hhead
  | cons innermost' outer =>
    cases hhead
    obtain ⟨later, hlater⟩ := (hs.append_closes hr hv).exists_balanced
    refine hbreaks later ?_
    rw [List.take_add_one, hget]
    exact hlater

/-- The check accepts the balanced tokens. Of others it reports the first closing tag that breaks
    the nesting, and the innermost section that is open in front of it, if there is any. If no
    closing tag breaks the nesting, some section is still open at the end, and the check reports
    the innermost one. -/
theorem check_reports_first_break (tokens : List Token) :
    (check tokens = .ok () ↔ Balanced tokens) ∧
    (∀ i ender, tokens[i]? = some ender → BreaksAt tokens i → (∀ j < i, ¬ BreaksAt tokens j) →
      (∃ opened, LeavesOpen opened (tokens.take i)) ∧
      ∀ opened, LeavesOpen opened (tokens.take i) →
        (∀ innermost ∈ opened.head?, innermost.value ≠ ender.value) ∧
        check tokens = .error (nestingError ender opened)) ∧
    (¬ Balanced tokens → (∀ i, ¬ BreaksAt tokens i) →
      (∃ innermost outer, LeavesOpen (innermost :: outer) tokens) ∧
      ∀ innermost outer, LeavesOpen (innermost :: outer) tokens →
        check tokens = .error (.unclosedSection innermost.value innermost.line)) := by
  refine ⟨check_eq_ok_iff, fun i ender hget hbreaks hfirst => ⟨?_, fun opened hs => ?_⟩,
    fun hbalanced hnone => ⟨?_, fun innermost outer => check_of_leavesOpen_cons⟩⟩
  · rcases leavesOpen_or_exists (tokens.take i) with hs | ⟨before, ender', after, opened, he,
      hbefore, hr, hv⟩
    · exact hs
    · -- A closing tag in front of the index would break the nesting as well.
      have hlt : before.length < i := by
        have hlen := congrArg List.length he
        simp only [List.length_take, List.length_append, List.length_cons] at hlen
        omega
      have htokens : tokens = before ++ ender' :: (after ++ tokens.drop i) := by
        rw [← List.cons_append, ← List.append_assoc, ← he, List.take_append_drop]
      exact absurd (htokens ▸ breaksAt_length hbefore hr hv _) (hfirst _ hlt)
  · have hv := ne_of_breaksAt hget hs hbreaks
    obtain ⟨⟨ender', hget', hr⟩, -⟩ := hbreaks
    obtain rfl := Option.some.inj (hget.symm.trans hget')
    obtain ⟨hlt, rfl⟩ := List.getElem?_eq_some_iff.1 hget
    have hreports := check_of_leavesOpen_closes hs hr hv (tokens.drop (i + 1))
    rw [← List.drop_eq_getElem_cons hlt, List.take_append_drop] at hreports
    exact ⟨hv, hreports⟩
  · rcases leavesOpen_or_exists tokens with ⟨opened, hs⟩ | ⟨before, ender, after, opened, rfl,
      hbefore, hr, hv⟩
    · cases opened with
      | nil => cases hs with | balanced hs => exact absurd hs hbalanced
      | cons innermost outer => exact ⟨innermost, outer, hs⟩
    · exact absurd (breaksAt_length hbefore hr hv after) (hnone _)

end Sections

end

end Mustache.Template
