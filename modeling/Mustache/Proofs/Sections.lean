import Mustache.Template.Section

/-!
# Sections that are open

Each token opens a section, closes one, or does neither (`Kind.role`). So the sections open
at an index of a template can be told from the tokens before it, without any data
(`enclosing`). In a template that passes the check these are the sections that the check
finds open there (`checked_of_check`), and none is open at the end.

* `exists_closing?`: a section is passed over by counting, to right behind its closing tag;
* `mem_enclosing_iff`: the sections that are open are those that go over the index.
-/

namespace Mustache.Template

/-- What a token does to the sections that are open. -/
inductive Role where
  | opens
  | closes
  | stays
deriving DecidableEq, Repr

/-- What a token of a kind does to the sections that are open. -/
def Kind.role : Kind → Role
  | .opener | .inverse => .opens
  | .ender => .closes
  | .text | .comment | .escaped | .unescaped | .expansion | .indenter => .stays

theorem role_eq_opens_iff {kind : Kind} : kind.role = .opens ↔ kind = .opener ∨ kind = .inverse := by
  cases kind <;> simp [Kind.role]

theorem role_eq_closes_iff {kind : Kind} : kind.role = .closes ↔ kind = .ender := by
  cases kind <;> simp [Kind.role]

namespace Sections

/-! ## The check, by the roles of tokens -/

section

variable {token : Token} {opened rest : List Token}

theorem checkFrom_opens (h : token.kind.role = .opens) :
    checkFrom opened (token :: rest) = checkFrom (token :: opened) rest := by
  rcases role_eq_opens_iff.1 h with hk | hk <;> simp [checkFrom, hk]

theorem checkFrom_stays (h : token.kind.role = .stays) :
    checkFrom opened (token :: rest) = checkFrom opened rest := by
  cases hk : token.kind <;> simp [hk, Kind.role] at h <;> simp [checkFrom, hk]

/-- A closing tag passes the check iff it names the innermost section. -/
theorem checkFrom_closes (h : token.kind.role = .closes) :
    checkFrom opened (token :: rest) = .ok () ↔
      ∃ innermost outer, opened = innermost :: outer ∧ innermost.value = token.value ∧
        checkFrom outer rest = .ok () := by
  have hk := role_eq_closes_iff.1 h
  cases opened with
  | nil => simp [checkFrom, hk]
  | cons innermost outer =>
    constructor
    · intro hc
      by_cases hv : innermost.value = token.value
      · exact ⟨innermost, outer, rfl, hv, by simpa [checkFrom, hk, hv] using hc⟩
      · simp [checkFrom, hk, hv] at hc
    · rintro ⟨_, _, he, hv, hc⟩
      cases he
      simpa [checkFrom, hk, hv] using hc

theorem checkFrom_nil : checkFrom opened [] = .ok () ↔ opened = [] := by
  cases opened <;> simp [checkFrom]

end

/-! ## The sections open at an index -/

/-- The indices of the opening tags of the sections that are open in front of the token at
    an index, the innermost first. -/
def enclosing (tokens : List Token) : Nat → List Nat
  | 0 => []
  | i + 1 =>
    match tokens[i]? with
    | none => enclosing tokens i
    | some token =>
      match token.kind.role with
      | .opens => i :: enclosing tokens i
      | .closes => (enclosing tokens i).tail
      | .stays => enclosing tokens i

section

variable {tokens : List Token} {token : Token} {i : Nat}

theorem enclosing_succ_opens (h : tokens[i]? = some token) (hr : token.kind.role = .opens) :
    enclosing tokens (i + 1) = i :: enclosing tokens i := by
  simp [enclosing, h, hr]

theorem enclosing_succ_closes (h : tokens[i]? = some token) (hr : token.kind.role = .closes) :
    enclosing tokens (i + 1) = (enclosing tokens i).tail := by
  simp [enclosing, h, hr]

theorem enclosing_succ_stays (h : tokens[i]? = some token) (hr : token.kind.role = .stays) :
    enclosing tokens (i + 1) = enclosing tokens i := by
  simp [enclosing, h, hr]

/-- The sections around an open section were open before it. -/
theorem enclosing_of_cons {k : Nat} {outer : List Nat} (h : enclosing tokens i = k :: outer) :
    k < i ∧ enclosing tokens k = outer := by
  induction i using Nat.strongRecOn generalizing k outer with
  | ind i ih =>
    cases i with
    | zero => cases h
    | succ i =>
      have hstays : enclosing tokens i = k :: outer → k < i + 1 ∧ enclosing tokens k = outer := by
        intro h
        obtain ⟨hk, hout⟩ := ih i (Nat.lt_succ_self _) h
        exact ⟨by omega, hout⟩
      rw [enclosing] at h
      split at h
      · exact hstays h
      · split at h
        · cases h
          exact ⟨Nat.lt_succ_self _, rfl⟩
        · -- A section was closed, and around it is the one at `k`.
          cases he : enclosing tokens i with
          | nil => rw [he] at h; cases h
          | cons m inner =>
            rw [he, List.tail_cons] at h
            obtain ⟨hm, hinner⟩ := ih i (Nat.lt_succ_self _) he
            obtain ⟨hk, hout⟩ := ih m (by omega) (hinner.trans h)
            exact ⟨by omega, hout⟩
        · exact hstays h

/-- What the check has come to at an index: the sections it finds open are those that enclose
    the index. -/
def Checked (tokens : List Token) (i : Nat) : Prop :=
  ∃ opened, (enclosing tokens i).map (tokens[·]?) = opened.map some ∧
    checkFrom opened (tokens.drop i) = .ok ()

/-- In a template that passes the check, the rest passes it from every index on. -/
theorem checked_of_check (h : check tokens = .ok ()) (hi : i ≤ tokens.length) :
    Checked tokens i := by
  induction i with
  | zero => exact ⟨[], rfl, h⟩
  | succ i ih =>
    have hlt : i < tokens.length := hi
    have hget : tokens[i]? = some tokens[i] := List.getElem?_eq_getElem hlt
    obtain ⟨opened, ho, hc⟩ := ih (Nat.le_of_lt hlt)
    -- The token at `i` changes what is open for the check as it does for the index behind it.
    rw [List.drop_eq_getElem_cons hlt] at hc
    cases hr : tokens[i].kind.role with
    | opens =>
      rw [checkFrom_opens hr] at hc
      refine ⟨tokens[i] :: opened, ?_, hc⟩
      rw [enclosing_succ_opens hget hr, List.map_cons, List.map_cons, ho, hget]
    | closes =>
      obtain ⟨innermost, outer, rfl, _, hc⟩ := (checkFrom_closes hr).1 hc
      refine ⟨outer, ?_, hc⟩
      rw [enclosing_succ_closes hget hr, List.map_tail, ho]
      rfl
    | stays =>
      rw [checkFrom_stays hr] at hc
      exact ⟨opened, by rw [enclosing_succ_stays hget hr, ho], hc⟩

/-- No section is open at the end of a template that passes the check. -/
theorem enclosing_length (h : check tokens = .ok ()) : enclosing tokens tokens.length = [] := by
  obtain ⟨opened, ho, hc⟩ := checked_of_check h (Nat.le_refl _)
  rw [List.drop_length, checkFrom_nil] at hc
  rw [hc, List.map_nil, List.map_eq_nil_iff] at ho
  exact ho

/-- A closing tag of a template that passes the check names the innermost open section. -/
theorem exists_enclosing_of_closes (h : check tokens = .ok ()) (hget : tokens[i]? = some token)
    (hr : token.kind.role = .closes) :
    ∃ k outer opener, enclosing tokens i = k :: outer ∧ tokens[k]? = some opener ∧
      opener.value = token.value := by
  obtain ⟨hlt, rfl⟩ := List.getElem?_eq_some_iff.1 hget
  obtain ⟨opened, ho, hc⟩ := checked_of_check h (Nat.le_of_lt hlt)
  rw [List.drop_eq_getElem_cons hlt] at hc
  obtain ⟨innermost, outer, rfl, hv, _⟩ := (checkFrom_closes hr).1 hc
  cases he : enclosing tokens i with
  | nil => rw [he] at ho; cases ho
  | cons k rest =>
    rw [he, List.map_cons, List.map_cons, List.cons.injEq] at ho
    exact ⟨k, rest, innermost, rfl, ho.1, hv⟩

end

/-! ## Passing over a section -/

section

variable {tokens : Array Token} {token : Token} {i : Nat}

theorem closingFrom?_opens (h : tokens[i]? = some token) (hr : token.kind.role = .opens)
    (depth : Nat) : closingFrom? tokens depth i = closingFrom? tokens (depth + 1) (i + 1) := by
  obtain ⟨hlt, rfl⟩ := Array.getElem?_eq_some_iff.1 h
  rw [closingFrom?.eq_def tokens depth i, dif_pos hlt]
  rcases role_eq_opens_iff.1 hr with hk | hk <;> simp [hk]

theorem closingFrom?_stays (h : tokens[i]? = some token) (hr : token.kind.role = .stays)
    (depth : Nat) : closingFrom? tokens depth i = closingFrom? tokens depth (i + 1) := by
  obtain ⟨hlt, rfl⟩ := Array.getElem?_eq_some_iff.1 h
  rw [closingFrom?.eq_def tokens depth i, dif_pos hlt]
  cases hk : tokens[i].kind <;> simp [hk, Kind.role] at hr ⊢

theorem closingFrom?_closes (h : tokens[i]? = some token) (hr : token.kind.role = .closes) :
    closingFrom? tokens 0 i = some i := by
  obtain ⟨hlt, rfl⟩ := Array.getElem?_eq_some_iff.1 h
  rw [closingFrom?.eq_def tokens 0 i, dif_pos hlt]
  simp [role_eq_closes_iff.1 hr]

theorem closingFrom?_closes_succ (h : tokens[i]? = some token) (hr : token.kind.role = .closes)
    (depth : Nat) : closingFrom? tokens (depth + 1) i = closingFrom? tokens depth (i + 1) := by
  obtain ⟨hlt, rfl⟩ := Array.getElem?_eq_some_iff.1 h
  rw [closingFrom?.eq_def tokens (depth + 1) i, dif_pos hlt]
  simp [role_eq_closes_iff.1 hr]

theorem closingFrom?_of_size_le (h : tokens.size ≤ i) (depth : Nat) :
    closingFrom? tokens depth i = none := by
  rw [closingFrom?.eq_def, dif_neg (Nat.not_lt.2 h)]

end

/-- Counting from inside a section that is closed at all leads to its closing tag. -/
theorem exists_closingFrom? {tokens : List Token} (inner : List Nat) {outer : List Nat}
    {i k : Nat} (hend : enclosing tokens tokens.length = []) (hi : i ≤ tokens.length)
    (h : enclosing tokens i = inner ++ k :: outer) :
    ∃ j, closingFrom? tokens.toArray inner.length i = some j ∧
      enclosing tokens j = k :: outer ∧ enclosing tokens (j + 1) = outer := by
  -- By induction on the number of tokens left, as the sections in between come and go.
  induction hn : tokens.length - i generalizing i inner with
  | zero =>
    obtain rfl : i = tokens.length := by omega
    rw [hend] at h
    simp at h
  | succ n ih =>
    have hlt : i < tokens.length := by omega
    have hget : tokens[i]? = some tokens[i] := List.getElem?_eq_getElem hlt
    have hat : tokens.toArray[i]? = some tokens[i] := by rw [List.getElem?_toArray, hget]
    cases hr : tokens[i].kind.role with
    | opens =>
      have he := enclosing_succ_opens hget hr
      rw [h] at he
      rw [closingFrom?_opens hat hr]
      exact ih (i :: inner) hlt he (by omega)
    | closes =>
      have he := enclosing_succ_closes hget hr
      rw [h] at he
      cases inner with
      | nil => exact ⟨i, closingFrom?_closes hat hr, h, he⟩
      | cons m inner =>
        rw [List.length_cons, closingFrom?_closes_succ hat hr]
        exact ih inner hlt he (by omega)
    | stays =>
      have he := enclosing_succ_stays hget hr
      rw [h] at he
      rw [closingFrom?_stays hat hr]
      exact ih inner hlt he (by omega)

/-- A section is passed over by counting, to its own closing tag. -/
theorem exists_closing? {tokens : List Token} {token : Token} {i : Nat}
    (h : check tokens = .ok ()) (hget : tokens[i]? = some token)
    (hr : token.kind.role = .opens) :
    ∃ j, closing? tokens.toArray i = some j ∧
      enclosing tokens j = i :: enclosing tokens i ∧
      enclosing tokens (j + 1) = enclosing tokens i := by
  obtain ⟨hlt, _⟩ := List.getElem?_eq_some_iff.1 hget
  exact exists_closingFrom? [] (enclosing_length h) hlt (enclosing_succ_opens hget hr)

/-! ## From an opening tag to its closing tag -/

/-- The section whose opening tag stands at index `k` goes at least up to the token at
    index `i`, which may be its closing tag. -/
def Encloses (tokens : List Token) (k i : Nat) : Prop :=
  ∃ opener j, tokens[k]? = some opener ∧ opener.kind.role = .opens ∧
    closing? tokens.toArray k = some j ∧ k < i ∧ i ≤ j

section

variable {tokens : List Token} {i j k : Nat}

/-- What is open behind a token was open in front of it, or is opened by it. -/
theorem mem_enclosing_succ (h : k ∈ enclosing tokens (i + 1)) :
    k ∈ enclosing tokens i ∨
      k = i ∧ ∃ opener, tokens[i]? = some opener ∧ opener.kind.role = .opens := by
  rw [enclosing] at h
  split at h
  · exact .inl h
  · next token hget =>
    split at h
    · next hr =>
      rcases List.mem_cons.1 h with rfl | h
      · exact .inr ⟨rfl, token, hget, hr⟩
      · exact .inl h
    · exact .inl (List.mem_of_mem_tail h)
    · exact .inl h

/-- What is open at an index has been opened before it. -/
theorem exists_of_mem_enclosing (h : k ∈ enclosing tokens i) :
    k < i ∧ ∃ opener, tokens[k]? = some opener ∧ opener.kind.role = .opens := by
  induction i with
  | zero => cases h
  | succ i ih =>
    rcases mem_enclosing_succ h with h | ⟨rfl, hopener⟩
    · exact ⟨Nat.lt_succ_of_lt (ih h).1, (ih h).2⟩
    · exact ⟨Nat.lt_succ_self _, hopener⟩

/-- The sections that are open lie inside each other. -/
theorem pairwise_enclosing (tokens : List Token) (i : Nat) :
    (enclosing tokens i).Pairwise (· > ·) := by
  induction i with
  | zero => exact .nil
  | succ i ih =>
    rw [enclosing]
    split
    · exact ih
    · split
      · exact .cons (fun k hk => (exists_of_mem_enclosing hk).1) ih
      · exact ih.sublist (List.tail_sublist _)
      · exact ih

/-- A section that is closed does not open again. -/
theorem not_mem_enclosing_of_le (hk : k < i) (h : k ∉ enclosing tokens i) (hij : i ≤ j) :
    k ∉ enclosing tokens j := by
  induction hij with
  | refl => exact h
  | @step j hij ih =>
    intro hj
    rcases mem_enclosing_succ hj with hj | ⟨rfl, -⟩
    · exact ih hj
    · exact absurd (Nat.lt_of_lt_of_le hk hij) (Nat.lt_irrefl _)

/-- The sections that are open at an index of a template that passes the check are those that
    go from before it to their closing tags behind it, or at it. -/
theorem mem_enclosing_iff (h : check tokens = .ok ()) :
    k ∈ enclosing tokens i ↔ Encloses tokens k i := by
  constructor
  · intro hk
    obtain ⟨hlt, opener, hget, hr⟩ := exists_of_mem_enclosing hk
    obtain ⟨j, hj, -, hbehind⟩ := exists_closing? h hget hr
    refine ⟨opener, j, hget, hr, hj, hlt, Nat.le_of_not_lt fun hji => ?_⟩
    -- Behind its closing tag, the section is not among those around its opening tag.
    have hkj := (le_of_closingFrom? hj).1
    refine not_mem_enclosing_of_le (by omega) (fun hmem => ?_) hji hk
    rw [hbehind] at hmem
    exact Nat.lt_irrefl _ (exists_of_mem_enclosing hmem).1
  · rintro ⟨opener, j, hget, hr, hj, hlt, hle⟩
    obtain ⟨_, hj', hat, -⟩ := exists_closing? h hget hr
    obtain rfl := Option.some.inj (hj.symm.trans hj')
    refine Classical.byContradiction fun hk => ?_
    exact not_mem_enclosing_of_le hlt hk hle (hat ▸ List.mem_cons_self)

/-- Behind a template that passes the check no section is open. -/
theorem enclosing_of_length_le (h : check tokens = .ok ()) (hi : tokens.length ≤ i) :
    enclosing tokens i = [] := by
  refine List.eq_nil_iff_forall_not_mem.2 fun k hk => ?_
  obtain ⟨_, j, _, _, hj, _, hle⟩ := (mem_enclosing_iff h).1 hk
  have hlt : j < tokens.length := (le_of_closingFrom? hj).2
  omega

end

end Sections

end Mustache.Template
