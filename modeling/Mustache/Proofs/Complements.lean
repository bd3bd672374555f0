import Mustache.Proofs.HiddenSection

/-!
# Sections and inverted sections

Whether a section is shown is decided by what sort of value its key stands for, and whether an
inverted one is, by whether that value is true. The two decisions are opposite to each other in
every state of the machine: where one moves into its section, the other passes over it. A section
and an inverted one with the same key, one behind the other, are therefore shown in turn. When
the machine comes to the second one it is in the same scopes again as in front of the first.

The tokens may come from anywhere, as long as sections are nested and partials follow their
indenters. An indenter without blanks, which no template has, does what a comment does
(`Token.quiet`).

* `run_map_quiet`: a run with comments in the place of such indenters;
* `sections_complement_inverses`: the two decisions, and what comes of both sections.
-/

namespace Mustache

namespace Template

/-- The token, or a comment in the place of an indenter without blanks. -/
def Token.quiet (token : Token) : Token :=
  if token.kind = .indenter ∧ token.value = [] then { token with kind := .comment } else token

theorem Token.quiet_of_ne {token : Token} (h : token.kind ≠ .indenter) : token.quiet = token :=
  if_neg fun hi => h hi.1

theorem Token.value_quiet (token : Token) : token.quiet.value = token.value := by
  rw [quiet]
  split <;> rfl

theorem Token.role_quiet (token : Token) : token.quiet.kind.role = token.kind.role := by
  rw [quiet]
  split
  · next h => rw [h.1, Kind.role, Kind.role]
  · rfl

theorem Balanced.map_quiet {tokens : List Token} (h : Balanced tokens) :
    Balanced (tokens.map Token.quiet) := by
  induction h with
  | nil => exact .nil
  | other hr _ ih => exact .other ((Token.role_quiet _).trans hr) ih
  | block ho he hv _ _ ihinner ihrest =>
    rw [List.map_cons, List.map_append, List.map_cons]
    exact .block ((Token.role_quiet _).trans ho) ((Token.role_quiet _).trans he)
      (by rw [Token.value_quiet, Token.value_quiet, hv]) ihinner ihrest

theorem PartialsFollow.map_quiet {tokens : List Token} (h : PartialsFollow tokens) :
    PartialsFollow (tokens.map Token.quiet) := by
  induction tokens with
  | nil => trivial
  | cons token rest ih =>
    refine ⟨fun hk => ?_, ih h.2⟩
    have hi : token.kind = .indenter := by
      rw [Token.quiet] at hk
      split at hk
      · cases hk
      · exact hk
    obtain ⟨next, later, rfl, hnext⟩ := h.1 hi
    refine ⟨next.quiet, _, List.map_cons, ?_⟩
    rw [Token.quiet_of_ne (by rw [hnext]; decide), hnext]

/-- Nested tokens whose partials follow their indenters have a tree, but for the indenters
    without blanks. -/
theorem exists_nests_map_quiet {tokens : List Token} (hc : Sections.check tokens = .ok ())
    (hp : PartialsFollow tokens) : ∃ pieces, Nests (tokens.map Token.quiet) pieces := by
  refine exists_nests hp.map_quiet (fun token hm hk => ?_)
    (Sections.check_of_balanced (Sections.check_eq_ok_iff.1 hc).map_quiet)
  obtain ⟨original, -, rfl⟩ := List.mem_map.1 hm
  rw [Token.quiet] at hk ⊢
  split at hk
  · cases hk
  · next hnot =>
    rw [if_neg hnot]
    exact fun hv => hnot ⟨hk, hv⟩

/-- Counting takes no note of what is not part of a section. -/
theorem Sections.closingFrom?_map_quiet (tokens : Array Token) (depth i : Nat) :
    closingFrom? (tokens.map Token.quiet) depth i = closingFrom? tokens depth i := by
  induction hn : tokens.size - i using Nat.strongRecOn generalizing depth i with
  | ind n ih =>
    subst hn
    by_cases hlt : i < tokens.size
    · have hget : tokens[i]? = some tokens[i] := Array.getElem?_eq_getElem hlt
      have hmap : (tokens.map Token.quiet)[i]? = some tokens[i].quiet := by
        rw [Array.getElem?_map, hget, Option.map_some]
      have hnext := fun depth => ih (tokens.size - (i + 1)) (by omega) depth (i + 1) rfl
      have hrole := Token.role_quiet tokens[i]
      cases hr : tokens[i].kind.role with
      | opens =>
        rw [closingFrom?_opens hget hr, closingFrom?_opens hmap (hrole.trans hr), hnext]
      | stays =>
        rw [closingFrom?_stays hget hr, closingFrom?_stays hmap (hrole.trans hr), hnext]
      | closes =>
        cases depth with
        | zero => rw [closingFrom?_closes hget hr, closingFrom?_closes hmap (hrole.trans hr)]
        | succ depth =>
          rw [closingFrom?_closes_succ hget hr, closingFrom?_closes_succ hmap (hrole.trans hr),
            hnext]
    · have hend : (tokens.map Token.quiet).size ≤ i := by
        rw [Array.size_map]
        exact Nat.not_lt.1 hlt
      rw [closingFrom?_of_size_le hend, closingFrom?_of_size_le (Nat.not_lt.1 hlt)]

end Template

namespace Render

open Template

/-! ## Indenters without blanks -/

section

variable {settings : Settings} {expansion : Expansion} {tokens : Array Token}

theorem skip_map_quiet (s : State) (token : Token) :
    s.skip (tokens.map Token.quiet) token = s.skip tokens token := by
  rw [State.skip, State.skip, Sections.closing?, Sections.closing?,
    Sections.closingFrom?_map_quiet]

/-- A step does the same with a comment in the place of an indenter without blanks. -/
theorem step_map_quiet (s : State) (token : Token) :
    step settings expansion (tokens.map Token.quiet) s token.quiet =
      step settings expansion tokens s token := by
  by_cases hq : token.kind = .indenter ∧ token.value = []
  · rw [Token.quiet, if_pos hq, step, step, hq.1, hq.2]
    rfl
  · rw [Token.quiet, if_neg hq, step, step]
    simp only [State.openSection, State.openInverse, skip_map_quiet]

theorem run_map_quiet (s : State) :
    run settings expansion (tokens.map Token.quiet) s = run settings expansion tokens s := by
  have hget : ∀ (s : State) (h : s.cursor < tokens.size),
      (tokens.map Token.quiet)[s.cursor]? = some tokens[s.cursor].quiet := fun s h => by
    rw [Array.getElem?_map, Array.getElem?_eq_getElem h, Option.map_some]
  fun_induction run settings expansion tokens s with
  | case1 s h e herror =>
    rw [run_of_getElem? settings expansion (hget s h), step_map_quiet, herror]
    rfl
  | case2 s h t hnext ih =>
    rw [run_of_getElem? settings expansion (hget s h), step_map_quiet, hnext]
    exact ih
  | case3 s h => rw [run_of_size_le settings expansion (by simpa using h)]

/-- A run over tokens is a run over their tree, if they have one but for such indenters. -/
theorem run_eq_of_nests {list : List Token} {pieces : List Piece}
    (h : Nests (list.map Token.quiet) pieces) (scopes : List Context) :
    run settings expansion list.toArray (.start scopes) =
      evaluateAll settings expansion pieces scopes := by
  rw [← run_map_quiet, List.map_toArray, run_nests h]

end

/-! ## The two decisions -/

/-- The machine moves into a section at its cursor. -/
def State.Enters (s : State) (key : List Char) (result : Except TemplateError State) : Prop :=
  ∃ frame scopes, result = .ok (s.enter key frame scopes)

/-- The machine passes over the section at its cursor, up to behind the closing tag. -/
def State.PassesOver (s : State) (tokens : Array Token) (result : Except TemplateError State) :
    Prop :=
  ∃ i, Sections.closing? tokens s.cursor = some i ∧ result = .ok { s with cursor := i + 1 }

section

variable {tokens : Array Token} {s : State} {token : Token} {key : List Char}
  {value : Option Context}

theorem State.Enters.not_passesOver {result : Except TemplateError State}
    (h : s.Enters key result) : ¬ s.PassesOver tokens result := by
  rintro ⟨i, -, hi⟩
  obtain ⟨frame, scopes, rfl⟩ := h
  have hopened : ⟨key, frame⟩ :: s.opened = s.opened :=
    congrArg State.opened (Except.ok.inj hi)
  exact List.cons_ne_self _ _ hopened

theorem hidden_opener_iff : Hidden .opener value ↔ value.any (·.truthy) = false := by
  constructor
  · intro h
    cases h with
    | absent => rfl
    | falsy hfalsy => exact hfalsy
    | empty => rfl
  · intro h
    rcases value with _ | _ | (_ | _) | value
    · exact .absent
    · cases h
    · exact .empty
    · cases h
    · exact .falsy h

theorem hidden_inverse_iff : Hidden .inverse value ↔ value.any (·.truthy) = true := by
  constructor
  · intro h
    cases h with
    | truthy htruthy => exact htruthy
  · intro h
    cases value with
    | none => cases h
    | some value => exact .truthy h

/-- A section is moved into iff its key stands for a true value, and else passed over. -/
theorem openSection_of_truthy (h : (Context.resolve s.scopes token.value).any (·.truthy) = true) :
    s.Enters token.value (s.openSection tokens token) := by
  rw [State.openSection]
  generalize Context.resolve s.scopes token.value = value at h
  rcases value with _ | _ | (_ | _) | value
  · cases h
  · exact ⟨_, _, rfl⟩
  · cases h
  · exact ⟨_, _, rfl⟩
  · exact ⟨_, _, if_pos h⟩

theorem openSection_of_hidden (h : Hidden .opener (Context.resolve s.scopes token.value)) :
    s.openSection tokens token = s.skip tokens token := by
  rw [State.openSection]
  generalize Context.resolve s.scopes token.value = value at h
  cases h with
  | absent => rfl
  | falsy hfalsy => exact if_neg (by rw [hfalsy]; decide)
  | empty => rfl

/-- An inverted section is moved into iff its key does not stand for a true value. -/
theorem openInverse_of_hidden (h : Hidden .opener (Context.resolve s.scopes token.value)) :
    s.Enters token.value (s.openInverse tokens token) :=
  ⟨_, _, if_neg (by rw [hidden_opener_iff.1 h]; decide)⟩

theorem openInverse_of_truthy (h : (Context.resolve s.scopes token.value).any (·.truthy) = true) :
    s.openInverse tokens token = s.skip tokens token :=
  if_pos h

end

/-- In a template that passes the check, a section that is skipped is passed over. -/
theorem passesOver_skip {tokens : List Token} {s : State} {tag : Token}
    (hc : Sections.check tokens = .ok ()) (hget : tokens[s.cursor]? = some tag)
    (hr : tag.kind.role = .opens) (token : Token) :
    s.PassesOver tokens.toArray (s.skip tokens.toArray token) := by
  obtain ⟨i, hi, -⟩ := Sections.exists_closing? hc hget hr
  exact ⟨i, hi, by rw [State.skip, hi]⟩

/-- Where the machine moves into a section, it would pass over an inverted one with the same key,
    and the other way round. -/
theorem decisions_or {tokens : List Token} {s : State} {tag : Token}
    (hc : Sections.check tokens = .ok ()) (hget : tokens[s.cursor]? = some tag)
    (hr : tag.kind.role = .opens) (key : List Char) (line line' : Nat) :
    (s.Enters key (s.openSection tokens.toArray ⟨.opener, key, line⟩) ∧
      s.PassesOver tokens.toArray (s.openInverse tokens.toArray ⟨.inverse, key, line'⟩)) ∨
    (s.PassesOver tokens.toArray (s.openSection tokens.toArray ⟨.opener, key, line⟩) ∧
      s.Enters key (s.openInverse tokens.toArray ⟨.inverse, key, line'⟩)) := by
  have hskip := passesOver_skip hc hget hr
  cases h : (Context.resolve s.scopes key).any (·.truthy) with
  | true =>
    have hopener : s.Enters key (s.openSection tokens.toArray ⟨.opener, key, line⟩) :=
      openSection_of_truthy h
    have hinverse : s.openInverse tokens.toArray ⟨.inverse, key, line'⟩ =
        s.skip tokens.toArray ⟨.inverse, key, line'⟩ := openInverse_of_truthy h
    exact .inl ⟨hopener, hinverse ▸ hskip _⟩
  | false =>
    have hhidden : Hidden .opener (Context.resolve s.scopes key) := hidden_opener_iff.2 h
    have hopener : s.openSection tokens.toArray ⟨.opener, key, line⟩ =
        s.skip tokens.toArray ⟨.opener, key, line⟩ := openSection_of_hidden hhidden
    exact .inr ⟨hopener ▸ hskip _, openInverse_of_hidden hhidden⟩

/-! ## One section behind the other -/

section

variable {settings : Settings} {expansion : Expansion} {scopes : List Context} {key : List Char}

theorem evaluateAll_singleton (piece : Piece) :
    evaluateAll settings expansion [piece] scopes = evaluate settings expansion piece scopes := by
  rw [evaluateAll]
  cases evaluate settings expansion piece scopes with
  | error e => rfl
  | ok out =>
    show Except.ok (out ++ "") = Except.ok out
    rw [String.append_empty]

/-- A last piece without output may be left out. -/
theorem evaluateAll_pair_of_eq_empty {last : Piece}
    (h : evaluate settings expansion last scopes = .ok "") (piece : Piece) :
    evaluateAll settings expansion [piece, last] scopes =
      evaluateAll settings expansion [piece] scopes := by
  rw [evaluateAll, evaluateAll_singleton, h]
  rfl

theorem evaluate_inverse_of_hidden (h : Hidden .opener (Context.resolve scopes key))
    (body : List Piece) :
    evaluate settings expansion (.inverse key body) scopes =
      evaluateAll settings expansion body scopes := by
  have hfalsy := hidden_opener_iff.1 h
  rw [evaluate]
  cases hv : Context.resolve scopes key with
  | none => rfl
  | some value =>
    rw [hv] at hfalsy
    exact if_neg (by rw [show value.truthy = false from hfalsy]; decide)

/-- Of a section and an inverted one behind it with the same key, one is shown. -/
theorem evaluateAll_block_inverse (a b : List Piece) :
    evaluateAll settings expansion [.block key a, .inverse key b] scopes =
      if (Context.resolve scopes key).any (·.truthy) then
        evaluateAll settings expansion [.block key a] scopes
      else evaluateAll settings expansion b scopes := by
  cases h : (Context.resolve scopes key).any (·.truthy) with
  | true =>
    have hsecond : evaluate settings expansion (.inverse key b) scopes = .ok "" :=
      evaluate_ofSection_of_hidden (hidden_inverse_iff.2 h) b
    rw [if_pos rfl, evaluateAll_pair_of_eq_empty hsecond]
  | false =>
    have hhidden : Hidden .opener (Context.resolve scopes key) := hidden_opener_iff.2 h
    have hfirst : evaluate settings expansion (.block key a) scopes = .ok "" :=
      evaluate_ofSection_of_hidden hhidden a
    rw [if_neg (by decide), evaluateAll_cons_of_eq_empty hfirst, evaluateAll_singleton,
      evaluate_inverse_of_hidden hhidden]

end

/-- A section and an inverted one with the same key are never both moved into, and never both
    passed over, wherever the machine comes to them. If one stands behind the other, the output is
    that of the section if the key stands for a true value, and that of what the inverted section
    holds if not. -/
theorem sections_complement_inverses {settings : Settings} {expansion : Expansion} :
    (∀ {tokens : List Token} {s : State} {tag : Token}, Sections.check tokens = .ok () →
      tokens[s.cursor]? = some tag → tag.kind.role = .opens → ∀ key line line',
        (s.Enters key (s.openSection tokens.toArray ⟨.opener, key, line⟩) ↔
          s.PassesOver tokens.toArray (s.openInverse tokens.toArray ⟨.inverse, key, line'⟩)) ∧
        (s.PassesOver tokens.toArray (s.openSection tokens.toArray ⟨.opener, key, line⟩) ↔
          s.Enters key (s.openInverse tokens.toArray ⟨.inverse, key, line'⟩)) ∧
        (s.Enters key (s.openSection tokens.toArray ⟨.opener, key, line⟩) ↔
          ¬ s.PassesOver tokens.toArray (s.openSection tokens.toArray ⟨.opener, key, line⟩))) ∧
    ∀ a b : List Token, Sections.check a = .ok () → PartialsFollow a →
      Sections.check b = .ok () → PartialsFollow b → ∀ key l₁ l₂ l₃ l₄ scopes,
        run settings expansion (⟨.opener, key, l₁⟩ :: (a ++ ⟨.ender, key, l₂⟩ ::
            ⟨.inverse, key, l₃⟩ :: (b ++ [⟨.ender, key, l₄⟩]))).toArray (.start scopes) =
          if (Context.resolve scopes key).any (·.truthy) then
            run settings expansion
              (⟨.opener, key, l₁⟩ :: (a ++ [⟨.ender, key, l₂⟩])).toArray (.start scopes)
          else run settings expansion b.toArray (.start scopes) := by
  refine ⟨fun hc hget hr key line line' => ?_,
    fun a b hca hpa hcb hpb key l₁ l₂ l₃ l₄ scopes => ?_⟩
  · rcases decisions_or hc hget hr key line line' with ⟨hs, hi⟩ | ⟨hs, hi⟩
    · exact ⟨iff_of_true hs hi, iff_of_false hs.not_passesOver fun h => h.not_passesOver hi,
        iff_of_true hs hs.not_passesOver⟩
    · exact ⟨iff_of_false (fun h => h.not_passesOver hs) hi.not_passesOver, iff_of_true hs hi,
        iff_of_false (fun h => h.not_passesOver hs) (not_not_intro hs)⟩
  · obtain ⟨pa, ha⟩ := exists_nests_map_quiet hca hpa
    obtain ⟨pb, hb⟩ := exists_nests_map_quiet hcb hpb
    have hsection : Nests ((⟨.opener, key, l₁⟩ :: (a ++ [⟨.ender, key, l₂⟩])).map Token.quiet)
        [.block key pa] := by
      rw [List.map_cons, List.map_append, List.map_singleton]
      exact .block rfl rfl rfl ha .nil
    have hboth : Nests ((⟨.opener, key, l₁⟩ :: (a ++ ⟨.ender, key, l₂⟩ ::
        ⟨.inverse, key, l₃⟩ :: (b ++ [⟨.ender, key, l₄⟩]))).map Token.quiet)
        [.block key pa, .inverse key pb] := by
      rw [List.map_cons, List.map_append, List.map_cons, List.map_cons, List.map_append,
        List.map_singleton]
      exact .block rfl rfl rfl ha (.inverse rfl rfl rfl hb .nil)
    rw [run_eq_of_nests hboth, run_eq_of_nests hsection, run_eq_of_nests hb,
      evaluateAll_block_inverse]

/-- What is not a number is not true. The inverted section is shown, and in it a section with the
    same key is not, while the first one holds an indenter without blanks. -/
theorem sections_complement_inverses_not_a_number :
    let k := "k".toList
    let a : List Token := [⟨.indenter, [], 1⟩, ⟨.expansion, "p".toList, 1⟩]
    let b : List Token := [⟨.opener, k, 2⟩, ⟨.text, "x".toList, 2⟩, ⟨.ender, k, 2⟩,
      ⟨.text, "y".toList, 2⟩]
    let tokens : List Token := ⟨.opener, k, 1⟩ :: (a ++ ⟨.ender, k, 1⟩ :: ⟨.inverse, k, 2⟩ ::
      (b ++ [⟨.ender, k, 3⟩]))
    let scopes : List Context := [.object [("k", .scalar (.float Decimal.notANumber))]]
    let s : State := .start scopes
    Sections.check tokens = .ok () ∧ Sections.check a = .ok () ∧ PartialsFollow a ∧
    Sections.check b = .ok () ∧ PartialsFollow b ∧
    s.PassesOver tokens.toArray (s.openSection tokens.toArray ⟨.opener, k, 1⟩) ∧
    s.Enters k (s.openInverse tokens.toArray ⟨.inverse, k, 1⟩) ∧
    run ⟨⟨[], []⟩, 0, true⟩ (expandAt ⟨⟨[], []⟩, 0, true⟩ 0) tokens.toArray s = .ok "y" := by
  intro k a b tokens scopes s
  have hct : Sections.check tokens = .ok () := rfl
  have hpa : PartialsFollow a := by simp [PartialsFollow, a]
  have hpb : PartialsFollow b := by simp [PartialsFollow, b]
  have hfalsy : (Context.resolve scopes k).any (·.truthy) = false := by decide +kernel
  obtain ⟨hdecisions, hrun⟩ := @sections_complement_inverses ⟨⟨[], []⟩, 0, true⟩
    (expandAt ⟨⟨[], []⟩, 0, true⟩ 0)
  obtain ⟨-, hiff, -⟩ := @hdecisions tokens s ⟨.opener, k, 1⟩ hct rfl rfl k 1 1
  have henters : s.Enters k (s.openInverse tokens.toArray ⟨.inverse, k, 1⟩) :=
    openInverse_of_hidden (hidden_opener_iff.2 hfalsy)
  have hb : Nests b [.block k [.text "x".toList], .text "y".toList] :=
    @Nests.block ⟨.opener, k, 2⟩ ⟨.ender, k, 2⟩ [⟨.text, "x".toList, 2⟩] _ _ _ rfl rfl rfl
      (.leaf rfl .nil) (.leaf rfl .nil)
  have hx : evaluate ⟨⟨[], []⟩, 0, true⟩ (expandAt ⟨⟨[], []⟩, 0, true⟩ 0)
      (.block k [.text "x".toList]) scopes = .ok "" :=
    evaluate_ofSection_of_hidden (hidden_opener_iff.2 hfalsy) _
  refine ⟨hct, rfl, hpa, rfl, hpb, hiff.2 henters, henters, ?_⟩
  rw [hrun a b rfl hpa rfl hpb k 1 1 2 3 scopes, hfalsy, if_neg (by decide), run_nests hb,
    evaluateAll_cons_of_eq_empty hx]
  rfl

end Render

end Mustache
