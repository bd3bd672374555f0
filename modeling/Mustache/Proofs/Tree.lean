import Mustache.Proofs.Indenters
import Mustache.Proofs.Sections.Balance

/-!
# The tree of a template

The opening and closing tags of a template pair up like parentheses, so that a template is
a *tree*: a section is one piece of it, which holds the pieces between its tags (`Piece`).
Which tokens belong to which pieces is told by a relation (`Nests`).

* `nest_eq`: the pieces can be built from the tokens, and there are no others;
* `nests_nest`: there are some for every template that passes the check.
-/

namespace Mustache.Template

/-- A piece of the tree of a template. -/
inductive Piece where
  | text (text : List Char)
  | remark
  /-- A variable, which may be escaped. -/
  | value (escaped : Bool) (key : List Char)
  /-- A section, with the pieces that it holds. -/
  | block (key : List Char) (body : List Piece)
  /-- An inverted section, with the pieces that it holds. -/
  | inverse (key : List Char) (body : List Piece)
  /-- A partial, and the blanks in front of it if it stands alone on a line. -/
  | expansion (indent name : List Char)

/-- The piece of a token that is neither part of a section nor an indenter. -/
def leaf? (token : Token) : Option Piece :=
  match token.kind with
  | .text => some (.text token.value)
  | .comment => some .remark
  | .escaped => some (.value true token.value)
  | .unescaped => some (.value false token.value)
  | .expansion => some (.expansion [] token.value)
  | .opener | .inverse | .ender | .indenter => none

/-- The tokens of some pieces: each section has its closing tag behind the tokens of what it
    holds, and each indenter its partial right behind it. -/
inductive Nests : List Token → List Piece → Prop
  | nil : Nests [] []
  | leaf {token : Token} {piece : Piece} {rest : List Token} {pieces : List Piece} :
      leaf? token = some piece → Nests rest pieces → Nests (token :: rest) (piece :: pieces)
  | indented {indenter token : Token} {rest : List Token} {pieces : List Piece} :
      indenter.kind = .indenter → indenter.value ≠ [] → token.kind = .expansion →
      Nests rest pieces →
      Nests (indenter :: token :: rest) (.expansion indenter.value token.value :: pieces)
  | block {opener ender : Token} {inner rest : List Token} {body pieces : List Piece} :
      opener.kind = .opener → ender.kind = .ender → opener.value = ender.value →
      Nests inner body → Nests rest pieces →
      Nests (opener :: (inner ++ ender :: rest)) (.block opener.value body :: pieces)
  | inverse {opener ender : Token} {inner rest : List Token} {body pieces : List Piece} :
      opener.kind = .inverse → ender.kind = .ender → opener.value = ender.value →
      Nests inner body → Nests rest pieces →
      Nests (opener :: (inner ++ ender :: rest)) (.inverse opener.value body :: pieces)

/-! ## Building the tree -/

/-- Puts a token in front of pieces: those up to the end of the innermost section, then
    those from there up to the end of the next one, and so on. -/
def place (token : Token) : List (List Piece) → List (List Piece)
  | [] => []
  | pieces :: outer =>
    match token.kind, pieces, outer with
    | .ender, _, _ => [] :: pieces :: outer
    | .opener, _, siblings :: outer => (.block token.value pieces :: siblings) :: outer
    | .inverse, _, siblings :: outer => (.inverse token.value pieces :: siblings) :: outer
    | .indenter, .expansion _ name :: pieces, _ =>
      (.expansion token.value name :: pieces) :: outer
    | _, _, _ => ((leaf? token).toList ++ pieces) :: outer

/-- The pieces of some tokens, up to the end of each section that they are in. -/
def levels (tokens : List Token) : List (List Piece) :=
  tokens.foldr place [[]]

/-- The pieces of properly nested tokens. -/
def nest (tokens : List Token) : List Piece :=
  (levels tokens).headD []

theorem place_leaf {token : Token} {piece : Piece} (h : leaf? token = some piece)
    (pieces : List Piece) (outer : List (List Piece)) :
    place token (pieces :: outer) = (piece :: pieces) :: outer := by
  rw [leaf?] at h
  split at h <;> cases h <;> next hk => simp [place, hk, leaf?]

theorem place_ender {token : Token} (h : token.kind = .ender) (pieces : List Piece)
    (outer : List (List Piece)) : place token (pieces :: outer) = [] :: pieces :: outer := by
  simp [place, h]

theorem place_opener {token : Token} (h : token.kind = .opener) (body siblings : List Piece)
    (outer : List (List Piece)) :
    place token (body :: siblings :: outer) = (.block token.value body :: siblings) :: outer := by
  simp [place, h]

theorem place_inverse {token : Token} (h : token.kind = .inverse) (body siblings : List Piece)
    (outer : List (List Piece)) :
    place token (body :: siblings :: outer) = (.inverse token.value body :: siblings) :: outer := by
  simp [place, h]

theorem place_indenter {token : Token} (h : token.kind = .indenter) (indent name : List Char)
    (pieces : List Piece) (outer : List (List Piece)) :
    place token ((.expansion indent name :: pieces) :: outer) =
      (.expansion token.value name :: pieces) :: outer := by
  simp [place, h]

/-- Nested tokens put their pieces in front of those that follow. -/
theorem foldr_place_of_nests {tokens : List Token} {pieces : List Piece} (h : Nests tokens pieces)
    (following : List Piece) (outer : List (List Piece)) :
    tokens.foldr place (following :: outer) = (pieces ++ following) :: outer := by
  induction h generalizing following outer with
  | nil => rfl
  | leaf hl _ ih => rw [List.foldr_cons, ih, place_leaf hl, List.cons_append]
  | indented hi _ hk _ ih =>
    rw [List.foldr_cons, List.foldr_cons, ih, place_leaf (by rw [leaf?, hk]), place_indenter hi,
      List.cons_append]
  | block ho he _ _ _ ihbody ihrest =>
    rw [List.foldr_cons, List.foldr_append, List.foldr_cons, ihrest, place_ender he, ihbody,
      place_opener ho, List.append_nil, List.cons_append]
  | inverse ho he _ _ _ ihbody ihrest =>
    rw [List.foldr_cons, List.foldr_append, List.foldr_cons, ihrest, place_ender he, ihbody,
      place_inverse ho, List.append_nil, List.cons_append]

/-- The pieces of nested tokens are those that are built from them. -/
theorem nest_eq {tokens : List Token} {pieces : List Piece} (h : Nests tokens pieces) :
    nest tokens = pieces := by
  rw [nest, levels, foldr_place_of_nests h, List.append_nil]
  rfl

/-! ## Nested tokens -/

theorem role_eq_stays_of_leaf? {token : Token} {piece : Piece} (h : leaf? token = some piece) :
    token.kind.role = .stays := by
  rw [leaf?] at h
  cases hk : token.kind <;> simp [hk] at h <;> rfl

theorem exists_leaf? {token : Token} (hr : token.kind.role = .stays) (hk : token.kind ≠ .indenter) :
    ∃ piece, leaf? token = some piece := by
  rw [leaf?]
  cases h : token.kind <;> simp_all [Kind.role]

/-- Nested tokens are balanced. -/
theorem Nests.balanced {tokens : List Token} {pieces : List Piece} (h : Nests tokens pieces) :
    Balanced tokens := by
  induction h with
  | nil => exact .nil
  | leaf hl _ ih => exact .other (role_eq_stays_of_leaf? hl) ih
  | indented hi _ hk _ ih => exact .other (by rw [hi, Kind.role]) (.other (by rw [hk, Kind.role]) ih)
  | block ho he hv _ _ ihbody ihrest
  | inverse ho he hv _ _ ihbody ihrest =>
    exact .block (by rw [ho, Kind.role]) (by rw [he, Kind.role]) hv ihbody ihrest

/-- A section of either sort is nested if what it holds is. -/
theorem nests_opens {opener ender : Token} {inner rest : List Token} {body pieces : List Piece}
    (hr : opener.kind.role = .opens) (hbody : Nests inner body) (he : ender.kind = .ender)
    (hv : opener.value = ender.value) (hrest : Nests rest pieces) :
    ∃ pieces', Nests (opener :: (inner ++ [ender]) ++ rest) pieces' := by
  rw [List.cons_append, List.append_assoc, List.singleton_append]
  rcases role_eq_opens_iff.1 hr with hk | hk
  · exact ⟨_, .block hk he hv hbody hrest⟩
  · exact ⟨_, .inverse hk he hv hbody hrest⟩

/-- Tokens that close some open sections, the innermost first, and are nested in between. -/
inductive Closes : List Token → List Token → Prop
  | done {tokens : List Token} {pieces : List Piece} : Nests tokens pieces → Closes [] tokens
  | close {opener ender : Token} {opened inner rest : List Token} {pieces : List Piece} :
      Nests inner pieces → ender.kind = .ender → opener.value = ender.value →
      Closes opened rest → Closes (opener :: opened) (inner ++ ender :: rest)

/-- Nested tokens may come before those that close the sections. -/
theorem Closes.append {opened tokens : List Token} (pre : List Token)
    (hpre : ∀ {rest pieces}, Nests rest pieces → ∃ pieces', Nests (pre ++ rest) pieces')
    (h : Closes opened tokens) : Closes opened (pre ++ tokens) := by
  cases h with
  | done hn =>
    obtain ⟨_, hn'⟩ := hpre hn
    exact .done hn'
  | close hn he hv hr =>
    obtain ⟨_, hn'⟩ := hpre hn
    rw [← List.append_assoc]
    exact .close hn' he hv hr

/-- Tokens that pass the check close the sections that are open. -/
theorem closes_of_checkFrom {opened tokens : List Token} (hp : PartialsFollow tokens)
    (hne : ∀ token ∈ tokens, token.kind = .indenter → token.value ≠ [])
    (h : Sections.checkFrom opened tokens = .ok ()) : Closes opened tokens := by
  -- By induction on the length, as an indenter goes together with the partial after it.
  induction hn : tokens.length using Nat.strongRecOn generalizing opened tokens with
  | ind n ih =>
    subst hn
    cases tokens with
    | nil =>
      cases opened with
      | nil => exact .done .nil
      | cons _ _ => cases h
    | cons token rest =>
      obtain ⟨hlead, hrest⟩ := hp
      obtain ⟨hvalue, hvalues⟩ := List.forall_mem_cons.1 hne
      have hrec := fun opened (hc : Sections.checkFrom opened rest = .ok ()) =>
        ih rest.length (Nat.lt_succ_self _) hrest hvalues hc rfl
      cases hr : token.kind.role with
      | opens =>
        rw [Sections.checkFrom_opens hr] at h
        cases hrec _ h with
        | @close _ ender _ inner later _ hn he hv hc =>
          have hsplit : token :: (inner ++ ender :: later) =
              token :: (inner ++ [ender]) ++ later := by simp
          rw [hsplit]
          exact .append _ (nests_opens hr hn he hv) hc
      | closes =>
        obtain ⟨_, _, rfl, hv, hc⟩ := (Sections.checkFrom_closes hr).1 h
        exact .close .nil (role_eq_closes_iff.1 hr) hv (hrec _ hc)
      | stays =>
        rw [Sections.checkFrom_stays hr] at h
        by_cases hk : token.kind = .indenter
        · obtain ⟨next, later, rfl, hnext⟩ := hlead hk
          rw [Sections.checkFrom_stays (by rw [hnext, Kind.role])] at h
          have hc := ih later.length (by simp only [List.length_cons]; omega) hrest.2
            (List.forall_mem_cons.1 hvalues).2 h rfl
          exact .append [token, next] (fun hrest => ⟨_, .indented hk (hvalue hk) hnext hrest⟩) hc
        · obtain ⟨piece, hl⟩ := exists_leaf? hr hk
          exact .append [token] (fun hrest => ⟨_, .leaf hl hrest⟩) (hrec _ h)

/-- Tokens that pass the check are nested if the indenters among them lead to partials. -/
theorem exists_nests {tokens : List Token} (hp : PartialsFollow tokens)
    (hne : ∀ token ∈ tokens, token.kind = .indenter → token.value ≠ [])
    (h : Sections.check tokens = .ok ()) : ∃ pieces, Nests tokens pieces := by
  cases closes_of_checkFrom hp hne h with
  | done hn => exact ⟨_, hn⟩

/-- The tokens of a template that passes the check are nested. -/
theorem nests_nest {tokens : List Token} (hi : IndentersLead tokens)
    (h : Sections.check tokens = .ok ()) : Nests tokens (nest tokens) := by
  have hne : ∀ token ∈ tokens, token.kind = .indenter → token.value ≠ [] := by
    intro token hm hk
    obtain ⟨i, hget⟩ := List.getElem?_of_mem hm
    exact (hi.exists_of_indenter hget hk).1
  obtain ⟨pieces, hn⟩ := exists_nests hi.partialsFollow hne h
  exact nest_eq hn ▸ hn

end Mustache.Template
