import Mustache.Proofs.Composition
import Mustache.Proofs.Reading.LoneTag

/-!
# Templates that start with a change of delimiters

A template may start with a tag that changes the delimiters (`Delimiters.change`), on a line of
its own. The line leaves a comment and is gone otherwise, so that what comes after it is read as
a template that starts with the new delimiters, one line further down. How the two pairs of
delimiters are made up does not matter: an equals sign, which neither of them holds, ends the
tag, and a blank, which neither of them holds, separates them.

* `Delimiters.reads_change`: the tag is a template with a single tag;
* `delimiters_may_change_first`: the tokens and the output of such a template.
-/

namespace Mustache

namespace Text

/-- A word is not found in a text that does not hold its first character. -/
theorem isFirst_of_not_mem {c : Char} {before : List Char} (h : c ∉ before)
    (word after : List Char) : IsFirst (c :: word) before after := by
  intro u v he
  by_contra! hlt
  -- The word would start at a character of the text.
  have hget := congrArg (·[u.length]?) he
  simp only [List.append_assoc, List.cons_append, List.getElem?_append_right (Nat.le_refl _),
    List.getElem?_append_left hlt, Nat.sub_self, List.getElem?_cons_zero] at hget
  exact h (List.mem_of_getElem? hget.symm)

/-- A text that neither starts nor ends in a blank is not trimmed. -/
theorem trim_eq_self {s : List Char} (hhead : ∀ c ∈ s.head?, isBlank c = false)
    (hlast : ∀ c ∈ s.getLast?, isBlank c = false) : trim s = s := by
  have hdrop : ∀ t : List Char, (∀ c ∈ t.head?, isBlank c = false) → t.dropWhile isBlank = t := by
    intro t ht
    cases t with
    | nil => rfl
    | cons c t => rw [List.dropWhile_cons_of_neg (by simp [ht c rfl])]
  rw [trim, hdrop s hhead, trimEnd, hdrop s.reverse (by rwa [List.head?_reverse]),
    List.reverse_reverse]

/-- The words of two words with a blank between them. -/
theorem words_pair {a b : List Char} (ha : ∀ c ∈ a, isBlank c = false)
    (hb : ∀ c ∈ b, isBlank c = false) (hane : a ≠ []) (hbne : b ≠ []) :
    words (a ++ ' ' :: b) = [a, b] := by
  have hsplit : (a ++ ' ' :: b).splitOnP isBlank = [a, b] := by
    rw [List.splitOnP_append_cons _ _ (by decide), List.splitOnP_eq_singleton (by simpa using ha),
      List.splitOnP_eq_singleton (by simpa using hb)]
    rfl
  rw [words, hsplit]
  simp [hane, hbne]

end Text

namespace Delimiters

variable {d d' : Delimiters}

/-- The two delimiters, as a tag that changes to them names them. -/
def names (d : Delimiters) : List Char := d.opening ++ ' ' :: d.closing

/-- The tag that changes the delimiters `d` to the delimiters `d'`. -/
def change (d d' : Delimiters) : List Char :=
  d.opening ++ '=' :: (d'.names ++ '=' :: d.closing)

theorem isBlank_of_not_isReserved {c : Char} (h : isReserved c = false) :
    Text.isBlank c = false :=
  (Bool.or_eq_false_iff.1 h).1

theorem words_names (hd : d.Usable) : Text.words d.names = [d.opening, d.closing] :=
  Text.words_pair (fun c hc => isBlank_of_not_isReserved (hd.isReserved_opening c hc))
    (fun c hc => isBlank_of_not_isReserved (hd.isReserved_closing c hc)) hd.opening_ne_nil
    hd.closing_ne_nil

theorem trim_names (hd : d.Usable) : Text.trim d.names = d.names := by
  refine Text.trim_eq_self (fun c hc => isBlank_of_not_isReserved (hd.isReserved_opening c ?_))
    (fun c hc => isBlank_of_not_isReserved (hd.isReserved_closing c ?_))
  · rw [names, List.head?_append_of_ne_nil _ hd.opening_ne_nil] at hc
    exact List.mem_of_mem_head? hc
  · rw [names, ← List.singleton_append, ← List.append_assoc,
      List.getLast?_append_of_ne_nil _ hd.closing_ne_nil] at hc
    exact List.mem_of_getLast? hc

/-- No equals sign is in the names of delimiters, so the first one ends the tag. -/
theorem not_mem_names (hd : d.Usable) : '=' ∉ d.names := by
  rw [names, List.mem_append, List.mem_cons, not_or, not_or]
  exact ⟨fun h => absurd (hd.isReserved_opening _ h) (by decide), by decide,
    fun h => absurd (hd.isReserved_closing _ h) (by decide)⟩

end Delimiters

namespace Template

open Delimiters

variable {d d' : Delimiters}

theorem enclose_names (d d' : Delimiters) :
    d.change d' = d.opening ++ Shape.delimiterChange.enclose d.closing d'.names := by
  simp [change, Shape.enclose, Shape.lead, Shape.closer]

theorem isFirst_change (hd' : d'.Usable) (rest : List Char) :
    Text.IsFirst (Shape.delimiterChange.closer d.closing) d'.names rest :=
  Text.isFirst_of_not_mem (not_mem_names hd') d.closing rest

theorem means_change (d : Delimiters) (hd' : d'.Usable) :
    Means d .delimiterChange d'.names .comment d'.names d' := by
  have h := Means.change (d := d) (words_names hd') hd'
  rwa [trim_names hd'] at h

/-- A change of delimiters is a template with a single tag. -/
theorem reads_change (d : Delimiters) (hd' : d'.Usable) :
    Reads d (.cons [] ⟨d.change d', .comment, d'.names⟩ (.last [])) := by
  rw [enclose_names]
  exact .cons (fun _ _ _ => Nat.zero_le _) rfl (isFirst_change hd' _) (means_change d hd')
    (.last (by simpa using hd'.opening_ne_nil))

/-- The line of a change of delimiters leaves a comment. -/
theorem tokenize_change (hd : d.Usable) (hd' : d'.Usable) :
    tokenize d (d.change d' ++ ['\n']) = .ok [⟨.comment, d'.names, 1⟩] := by
  have h : tokenize d ([] ++ d.change d' ++ ([] ++ ['\n'])) = .ok [⟨.comment, d'.names, 1⟩] :=
    tokenize_lone_tag (reads_change d hd') hd rfl rfl rfl (.inr rfl)
  exact h

/-- Behind the line of a change of delimiters, the new ones are in force. -/
theorem delimitersAfter_change (hd : d.Usable) (hd' : d'.Usable) :
    delimitersAfter d (d.change d' ++ ['\n']) = d' := by
  have hopens : Text.IsFirst d.opening []
      (Shape.delimiterChange.enclose d.closing d'.names ++ ['\n']) := fun _ _ _ => Nat.zero_le _
  have h := delimitersAfter_of_means hd hopens rfl (isFirst_change hd' _) (means_change d hd')
    (not_infix_of_blank hd' fun c hc => .inr (List.mem_singleton.1 hc))
  rwa [List.nil_append, ← enclose_names] at h

/-- A tag that changes delimiters is on one line. -/
theorem lineFeeds_change (hd : d.Usable) (hd' : d'.Usable) :
    Text.lineFeeds (d.change d' ++ ['\n']) = 1 := by
  have hfeed : ∀ {delimiter : List Char}, (∀ c ∈ delimiter, isReserved c = false) →
      delimiter.count '\n' = 0 := fun h =>
    List.count_eq_zero.2 fun hm => absurd (h _ hm) (by decide)
  simp [Text.lineFeeds, change, names, hfeed hd.isReserved_opening, hfeed hd.isReserved_closing,
    hfeed hd'.isReserved_opening, hfeed hd'.isReserved_closing]

/-- The tokens of a template that starts with a change of delimiters. -/
theorem tokenize_change_append (hd : d.Usable) (hd' : d'.Usable) (t : List Char) :
    tokenize d (d.change d' ++ ['\n'] ++ t) =
      ((tokenize d' t).map fun tokens =>
        ⟨.comment, d'.names, 1⟩ :: tokens.map (·.shift 1)).mapError (·.shift 1) := by
  have hl : Text.EndsLine (d.change d' ++ ['\n']) := by simp [Text.EndsLine]
  have hjoined : ∀ later,
      joined [⟨.comment, d'.names, 1⟩] later = ⟨.comment, d'.names, 1⟩ :: later :=
    joined_singleton_of_ne (by simp)
  simp only [tokenize_append hd (tokenize_change hd hd') hl, delimitersAfter_change hd hd',
    lineFeeds_change hd hd', hjoined]

end Template

namespace Render

open Template

variable {settings settings' : Settings} {expansion expansion' : Expansion}

/-- Tokens further down, and behind a comment, have the same output. -/
theorem run_comment_cons {comment : Token} {tokens : List Token} (hk : comment.kind = .comment)
    (hi : IndentersLead tokens) (hc : Sections.check tokens = .ok ()) (n : Nat)
    (scopes : List Context) :
    run settings expansion (comment :: tokens.map (·.shift n)).toArray (.start scopes) =
      run settings expansion tokens.toArray (.start scopes) := by
  have hn := nests_nest hi hc
  have hleaf : leaf? comment = some .remark := by rw [leaf?, hk]
  have hn' : Nests (comment :: tokens.map (·.shift n)) (.remark :: nest tokens) :=
    .leaf hleaf (hn.of_map_unlined (map_unlined_shift n tokens))
  rw [run_nests hn, run_nests hn', evaluateAll_cons_of_eq_empty (by rw [evaluate])]

/-- Without partials, a template behind the line of a change of delimiters has the output that it
    has where the settings have the new delimiters. -/
theorem renderWith_change_append (hd : settings.delimiters.Usable)
    (hd' : settings'.delimiters.Usable) (hs : settings.escapeHtml = settings'.escapeHtml)
    (t : List Char) (scopes : List Context)
    (hn : ∀ tokens, tokenize settings'.delimiters t = .ok tokens →
      ∀ token ∈ tokens, token.kind ≠ .expansion) :
    renderWith settings expansion
        (settings.delimiters.change settings'.delimiters ++ ['\n'] ++ t) scopes =
      (renderWith settings' expansion' t scopes).mapError (·.shift 1) := by
  have htokens := tokenize_change_append hd hd' t
  cases ht : tokenize settings'.delimiters t with
  | error e =>
    rw [ht] at htokens
    rw [renderWith_of_tokenize_eq_error ht, renderWith_of_tokenize_eq_error htokens]
    rfl
  | ok tokens =>
    rw [ht] at htokens
    have hcheck : Sections.check
        (⟨.comment, settings'.delimiters.names, 1⟩ :: tokens.map (·.shift 1)) =
          (Sections.check tokens).mapError (·.shift 1) :=
      Sections.check_shift 1 tokens
    rw [renderWith_of_tokenize ht, renderWith_of_tokenize htokens, hcheck]
    cases hc : Sections.check tokens with
    | error e => rfl
    | ok _ =>
      obtain ⟨out, hout⟩ : ∃ out,
          run settings' expansion' tokens.toArray (.start scopes) = .ok out :=
        exists_run_eq_ok hc (hn tokens ht)
      have hrun : run settings expansion tokens.toArray (.start scopes) =
          run settings' expansion' tokens.toArray (.start scopes) :=
        run_congr hs (by simpa using hn tokens ht) _
      show run settings expansion _ _ = Except.mapError _ (run settings' expansion' _ _)
      rw [run_comment_cons rfl (indentersLead_of_tokenize ht) hc, hrun, hout]
      rfl

/-- A template that starts with the line of a change of delimiters has a comment there, and then
    the tokens that it has under the new delimiters, one line further down; it is improper where
    it is so under the new ones. Without partials it has the output that it has with the new
    delimiters in the settings. -/
theorem delimiters_may_change_first {d d' : Delimiters} (hd : d.Usable) (hd' : d'.Usable)
    (t : String) :
    tokenize d (d.change d' ++ ['\n'] ++ t.toList) =
      ((tokenize d' t.toList).map fun tokens =>
        ⟨.comment, d'.names, 1⟩ :: tokens.map (·.shift 1)).mapError (·.shift 1) ∧
    ∀ (settings : Settings) (data : Context), settings.delimiters = d →
      (∀ tokens, tokenize d' t.toList = .ok tokens → ∀ token ∈ tokens, token.kind ≠ .expansion) →
        render settings (String.ofList (d.change d' ++ ['\n']) ++ t) data =
          (render { settings with delimiters := d' } t data).mapError (·.shift 1) := by
  refine ⟨tokenize_change_append hd hd' t.toList, fun settings data hdelim hn => ?_⟩
  subst hdelim
  simp only [render, renderAt_eq_renderWith, String.toList_append, String.toList_ofList]
  exact @renderWith_change_append _ { settings with delimiters := d' } _ _ hd hd' rfl t.toList
    [data] hn

/-- The closing delimiter is part of the new opening one, and the new closing delimiter is a
    sigil. -/
theorem delimiters_may_change_first_overlapping_delimiters :
    let d : Delimiters := ⟨"<%".toList, "%>".toList⟩
    let d' : Delimiters := ⟨"%><".toList, "#".toList⟩
    let data : Context := .object [("x", .string "1")]
    d.Usable ∧ d'.Usable ∧
    tokenize d "<%=%>< #=%>\n %><!y#\n%>< x#%>".toList =
      .ok [⟨.comment, "%>< #".toList, 1⟩, ⟨.comment, "y".toList, 2⟩, ⟨.escaped, "x".toList, 3⟩,
        ⟨.text, "%>".toList, 3⟩] ∧
    render ⟨d, 1, true⟩ "<%=%>< #=%>\n %><!y#\n%>< x#%>" data = .ok "1%>" := by
  have hd : Delimiters.Usable ⟨"<%".toList, "%>".toList⟩ := by decide
  have hd' : Delimiters.Usable ⟨"%><".toList, "#".toList⟩ := by decide
  have ht : tokenize ⟨"%><".toList, "#".toList⟩ " %><!y#\n%>< x#%>".toList =
      .ok [⟨.comment, "y".toList, 1⟩, ⟨.escaped, "x".toList, 2⟩, ⟨.text, "%>".toList, 2⟩] := by cbv
  obtain ⟨htokens, hrender⟩ := delimiters_may_change_first hd hd' " %><!y#\n%>< x#%>"
  rw [ht] at htokens
  refine ⟨hd, hd', htokens,
    (hrender ⟨⟨"<%".toList, "%>".toList⟩, 1, true⟩ _ rfl fun tokens h => ?_).trans ?_⟩
  · cases ht.symm.trans h
    decide
  · rw [render, renderAt_eq_evaluateAt]
    cbv

end Render

end Mustache
