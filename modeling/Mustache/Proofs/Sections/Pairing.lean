import Mustache.Proofs.Sections.Balance

/-!
# Closing tags and the sections that they close

The check pairs each closing tag with the opening tag of the innermost section that it finds
open there, and compares their names. A section is passed over in another way, by counting tags
from its opening tag on, whatever their names are. To compare the two, the check is run with note
taken of the pairs (`pairs`), which does not change what comes of it (`map_pairs`).

* `mem_pairs_iff`: the pairs, told from the sections that are open in front of a closing tag;
* `passing_over_agrees_with_pairing`: counting leads to the closing tag that the check has paired
  with the opening one.
-/

namespace Mustache.Template

namespace Sections

/-- The check, from the token at index `i` on, with note taken of the indices of the tags that it
    pairs. The sections that are open are given innermost first, each with the index of its
    opening tag. -/
def pairFrom (opened : List (Nat × Token)) (i : Nat) :
    List Token → Except TemplateError (List (Nat × Nat))
  | [] =>
    match opened with
    | [] => .ok []
    | (_, innermost) :: _ => .error (.unclosedSection innermost.value innermost.line)
  | token :: rest =>
    match token.kind with
    | .opener | .inverse => pairFrom ((i, token) :: opened) (i + 1) rest
    | .ender =>
      match opened with
      | [] => .error (.unexpectedEnder token.value token.line)
      | (k, innermost) :: outer =>
        if innermost.value = token.value then (pairFrom outer (i + 1) rest).map ((k, i) :: ·)
        else .error (.mismatchedEnder innermost.value token.value token.line)
    | _ => pairFrom opened (i + 1) rest

/-- The indices of the opening and closing tags that the check pairs. -/
def pairs (tokens : List Token) : Except TemplateError (List (Nat × Nat)) :=
  pairFrom [] 0 tokens

/-- Apart from the pairs, what comes of the check is the same. -/
theorem map_pairFrom (opened : List (Nat × Token)) (i : Nat) (tokens : List Token) :
    (pairFrom opened i tokens).map (fun _ => ()) = checkFrom (opened.map (·.2)) tokens := by
  fun_induction pairFrom opened i tokens with
  | case1 => rfl
  | case2 => rfl
  | case3 opened i token rest hk ih =>
    rw [ih, checkFrom_opens (role_eq_opens_iff.2 (.inl hk)), List.map_cons]
  | case4 opened i token rest hk ih =>
    rw [ih, checkFrom_opens (role_eq_opens_iff.2 (.inr hk)), List.map_cons]
  | case5 i token rest hk => simp [checkFrom, hk, Except.map]
  | case6 i token rest hk k innermost outer hv ih =>
    rw [List.map_cons, checkFrom_closes_of_eq (role_eq_closes_iff.2 hk) hv, ← ih]
    cases pairFrom outer (i + 1) rest <;> rfl
  | case7 i token rest hk k innermost outer hv => simp [checkFrom, hk, hv, Except.map]
  | case8 opened i token rest hopener hinverse hender ih =>
    have hr : token.kind.role = .stays := by
      cases hk : token.kind <;> simp_all [Kind.role]
    rw [ih, checkFrom_stays hr]

theorem map_pairs (tokens : List Token) : (pairs tokens).map (fun _ => ()) = check tokens :=
  map_pairFrom [] 0 tokens

theorem exists_pairs {tokens : List Token} (h : check tokens = .ok ()) :
    ∃ ps, pairs tokens = .ok ps := by
  rw [← map_pairs] at h
  cases hp : pairs tokens with
  | ok ps => exact ⟨ps, rfl⟩
  | error e =>
    rw [hp] at h
    cases h

/-! ## The pairs, by the sections that are open -/

section

variable {tokens rest : List Token} {token opener : Token} {opened : List (Nat × Token)}
  {ps : List (Nat × Nat)} {i j k : Nat}

theorem pairFrom_opens (hr : token.kind.role = .opens) :
    pairFrom opened i (token :: rest) = pairFrom ((i, token) :: opened) (i + 1) rest := by
  rcases role_eq_opens_iff.1 hr with hk | hk <;> simp [pairFrom, hk]

theorem pairFrom_stays (hr : token.kind.role = .stays) :
    pairFrom opened i (token :: rest) = pairFrom opened (i + 1) rest := by
  cases hk : token.kind <;> simp [hk, Kind.role] at hr <;> simp [pairFrom, hk]

/-- A closing tag is paired with the opening tag of the innermost section. -/
theorem pairFrom_closes (hr : token.kind.role = .closes)
    (h : pairFrom opened i (token :: rest) = .ok ps) :
    ∃ k innermost outer later, opened = (k, innermost) :: outer ∧
      pairFrom outer (i + 1) rest = .ok later ∧ ps = (k, i) :: later := by
  have hk := role_eq_closes_iff.1 hr
  cases opened with
  | nil => simp [pairFrom, hk] at h
  | cons innermost outer =>
    obtain ⟨k, innermost⟩ := innermost
    by_cases hv : innermost.value = token.value
    · cases hlater : pairFrom outer (i + 1) rest with
      | ok later =>
        simp only [pairFrom, hk, hv, if_true, hlater, Except.map, Except.ok.injEq] at h
        exact ⟨k, innermost, outer, later, rfl, hlater, h.symm⟩
      | error e => simp [pairFrom, hk, hv, hlater, Except.map] at h
    · simp [pairFrom, hk, hv] at h

/-- The token at index `j` closes the section that was opened at index `k`, the innermost one
    open in front of it. -/
def Closes (tokens : List Token) (k j : Nat) : Prop :=
  ∃ ender outer, tokens[j]? = some ender ∧ ender.kind.role = .closes ∧
    enclosing tokens j = k :: outer

/-- A token that is no closing tag may be left out. -/
theorem succ_le_and_closes_iff (hget : tokens[i]? = some token)
    (hr : token.kind.role ≠ .closes) :
    i + 1 ≤ j ∧ Closes tokens k j ↔ i ≤ j ∧ Closes tokens k j := by
  refine ⟨fun ⟨hle, hc⟩ => ⟨Nat.le_of_succ_le hle, hc⟩, fun ⟨hle, hc⟩ => ⟨?_, hc⟩⟩
  rcases Nat.eq_or_lt_of_le hle with rfl | hlt
  · obtain ⟨ender, -, hender, hcloses, -⟩ := hc
    obtain rfl := Option.some.inj (hget.symm.trans hender)
    exact absurd hcloses hr
  · exact hlt

/-- The pairs from an index on are those whose closing tags come from there on. -/
theorem mem_pairFrom_iff (ho : opened.map (·.1) = enclosing tokens i)
    (h : pairFrom opened i (tokens.drop i) = .ok ps) :
    (k, j) ∈ ps ↔ i ≤ j ∧ Closes tokens k j := by
  -- By induction on the number of tokens left, as for the check.
  induction hn : tokens.length - i generalizing i opened ps with
  | zero =>
    rw [List.drop_of_length_le (by omega)] at h
    cases opened with
    | nil =>
      cases h
      constructor
      · intro hmem
        cases hmem
      · rintro ⟨hle, ender, -, hget, -⟩
        have hlt := (List.getElem?_eq_some_iff.1 hget).1
        omega
    | cons => cases h
  | succ n ih =>
    have hlt : i < tokens.length := by omega
    have hget : tokens[i]? = some tokens[i] := List.getElem?_eq_getElem hlt
    rw [List.drop_eq_getElem_cons hlt] at h
    cases hr : tokens[i].kind.role with
    | opens =>
      rw [pairFrom_opens hr] at h
      rw [ih (by rw [enclosing_succ_opens hget hr, List.map_cons, ho]) h (by omega)]
      exact succ_le_and_closes_iff hget (by simp [hr])
    | stays =>
      rw [pairFrom_stays hr] at h
      rw [ih (by rw [enclosing_succ_stays hget hr, ho]) h (by omega)]
      exact succ_le_and_closes_iff hget (by simp [hr])
    | closes =>
      obtain ⟨k', innermost, outer, later, rfl, hlater, rfl⟩ := pairFrom_closes hr h
      have ho' : enclosing tokens i = k' :: outer.map (·.1) := ho.symm
      have houter : outer.map (·.1) = enclosing tokens (i + 1) := by
        rw [enclosing_succ_closes hget hr, ho', List.tail_cons]
      rw [List.mem_cons, ih houter hlater (by omega), Prod.mk.injEq]
      constructor
      · rintro (⟨rfl, rfl⟩ | ⟨hle, hc⟩)
        · exact ⟨Nat.le_refl _, _, _, hget, hr, ho'⟩
        · exact ⟨Nat.le_of_succ_le hle, hc⟩
      · rintro ⟨hle, hc⟩
        rcases Nat.eq_or_lt_of_le hle with rfl | hlt
        · obtain ⟨-, outer', -, -, hinner⟩ := hc
          rw [ho', List.cons.injEq] at hinner
          exact .inl ⟨hinner.1.symm, rfl⟩
        · exact .inr ⟨hlt, hc⟩

/-- The check pairs each closing tag with the innermost section that is open in front of it. -/
theorem mem_pairs_iff (h : pairs tokens = .ok ps) : (k, j) ∈ ps ↔ Closes tokens k j := by
  have hmem := mem_pairFrom_iff (i := 0) (k := k) (j := j) rfl h
  rwa [and_iff_right (Nat.zero_le j)] at hmem

end

end Sections

/-! ## What stands behind an opening tag -/

/-- Behind an opening tag among balanced tokens come balanced tokens and a closing tag of the
    same name. -/
theorem Balanced.exists_block {tokens : List Token} {opener : Token} {i : Nat}
    (h : Balanced tokens) (hget : tokens[i]? = some opener) (hr : opener.kind.role = .opens) :
    ∃ inner ender after, tokens.drop i = opener :: (inner ++ ender :: after) ∧ Balanced inner ∧
      ender.kind.role = .closes ∧ opener.value = ender.value := by
  induction h generalizing i with
  | nil => cases hget
  | other hstays _ ih =>
    cases i with
    | zero =>
      cases hget
      rw [hr] at hstays
      cases hstays
    | succ i => exact ih hget
  | @block first last inner rest ho he hv hinner hrest ihinner ihrest =>
    cases i with
    | zero =>
      cases hget
      exact ⟨inner, last, rest, rfl, hinner, he, hv⟩
    | succ i =>
      rw [List.getElem?_cons_succ] at hget
      rw [List.drop_succ_cons]
      rcases Nat.lt_or_ge i inner.length with hi | hi
      · rw [List.getElem?_append_left hi] at hget
        obtain ⟨inner', ender, after, hdrop, hbalanced, hcloses, hname⟩ := ihinner hget
        refine ⟨inner', ender, after ++ last :: rest, ?_, hbalanced, hcloses, hname⟩
        rw [List.drop_append_of_le_length (Nat.le_of_lt hi), hdrop, List.cons_append,
          List.append_assoc, List.cons_append]
      · rw [List.getElem?_append_right hi] at hget
        rw [List.drop_append, List.drop_of_length_le hi, List.nil_append]
        cases hm : i - inner.length with
        | zero =>
          rw [hm] at hget
          cases hget
          rw [hr] at he
          cases he
        | succ m =>
          rw [hm] at hget
          exact ihrest hget

namespace Sections

section

variable {tokens : List Token} {ps : List (Nat × Nat)} {i j k m : Nat}

/-- Closing tags inside a section are paired inside it. -/
theorem lt_of_mem_pairs (h : check tokens = .ok ()) (hp : pairs tokens = .ok ps)
    (hi : Encloses tokens i (m + 1)) (hm : (k, m) ∈ ps) : i < k := by
  obtain ⟨ender, outer, hget, hr, hinner⟩ := (mem_pairs_iff hp).1 hm
  -- The section is still open behind the closing tag, so it is around the one that is closed.
  have hmem := (mem_enclosing_iff h).2 hi
  rw [enclosing_succ_closes hget hr, hinner, List.tail_cons] at hmem
  have hpairwise := pairwise_enclosing tokens m
  rw [hinner, List.pairwise_cons] at hpairwise
  exact hpairwise.1 i hmem

end

/-- In a template that passes the check, counting from an opening tag leads to the closing tag
    that the check has paired with it. The two have the same name, what stands between them is
    balanced, and the closing tags there are paired with opening tags there. -/
theorem passing_over_agrees_with_pairing {tokens : List Token} {opener : Token} {i : Nat}
    (h : check tokens = .ok ()) (hget : tokens[i]? = some opener)
    (hk : opener.kind = .opener ∨ opener.kind = .inverse) :
    ∃ ps j ender, pairs tokens = .ok ps ∧ closing? tokens.toArray i = some j ∧ i < j ∧
      tokens[j]? = some ender ∧ ender.kind = .ender ∧ (i, j) ∈ ps ∧
      opener.value = ender.value ∧ Balanced ((tokens.take j).drop (i + 1)) ∧
      ∀ k m, (k, m) ∈ ps → i < m → m < j → i < k := by
  have hr := role_eq_opens_iff.2 hk
  obtain ⟨ps, hp⟩ := exists_pairs h
  obtain ⟨inner, ender, after, hdrop, hinner, he, hv⟩ := (check_eq_ok_iff.1 h).exists_block hget hr
  have hat : tokens.toArray.toList.drop i = opener :: (inner ++ ender :: after) := hdrop
  have hclosing := closing?_of_balanced hinner he hat
  obtain ⟨j, hj, hopen, -⟩ := exists_closing? h hget hr
  obtain rfl := Option.some.inj (hclosing.symm.trans hj)
  have hbehind : tokens.drop (i + 1) = inner ++ ender :: after := drop_succ_of_drop hat
  have hender : tokens[i + 1 + inner.length]? = some ender := by
    rw [← List.getElem?_drop, hbehind, List.getElem?_append_right (Nat.le_refl _), Nat.sub_self]
    rfl
  refine ⟨ps, _, ender, hp, hj, by omega, hender, role_eq_closes_iff.1 he,
    (mem_pairs_iff hp).2 ⟨ender, _, hender, he, hopen⟩, hv, ?_, fun k m hm him hmj => ?_⟩
  · rw [List.drop_take, hbehind, Nat.add_sub_cancel_left, List.take_left]
    exact hinner
  · exact lt_of_mem_pairs h hp ⟨opener, _, hget, hr, hj, by omega, hmj⟩ hm

/-- Of two sections of the same name, the outer one ends at the last tag. -/
theorem passing_over_agrees_with_pairing_same_name :
    let tokens : List Token := [⟨.opener, ['a'], 1⟩, ⟨.inverse, ['a'], 1⟩, ⟨.text, ['x'], 1⟩,
      ⟨.ender, ['a'], 1⟩, ⟨.ender, ['a'], 1⟩]
    check tokens = .ok () ∧ ∃ ps, pairs tokens = .ok ps ∧ closing? tokens.toArray 0 = some 4 ∧
      (0, 4) ∈ ps ∧ Balanced [⟨.inverse, ['a'], 1⟩, ⟨.text, ['x'], 1⟩, ⟨.ender, ['a'], 1⟩] := by
  intro tokens
  have hc : check tokens = .ok () := by rfl
  obtain ⟨ps, j, ender, hp, hj, -, -, -, hmem, -, hbalanced, -⟩ :=
    passing_over_agrees_with_pairing (i := 0) hc rfl (.inl rfl)
  have hclosing : closing? tokens.toArray 0 = some 4 := by cbv
  obtain rfl := Option.some.inj (hclosing.symm.trans hj)
  exact ⟨hc, ps, hp, hj, hmem, hbalanced⟩

end Sections

end Mustache.Template
