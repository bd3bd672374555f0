import Mustache.Proofs.Composition
import Mustache.Proofs.Reading.LoneTag

/-!
# Sections that are not shown

A section whose tags stand on lines of their own takes up whole lines of a template
(`SectionLines`). Where it is not shown (`Hidden`), the template has the output that it has
without these lines, whatever they hold. They may well change the delimiters in between, but
what follows has to start with those in force in front of them.

* `SectionLines.exists_tokenize`: the tokens of such lines are those of the section;
* `hidden_lines_can_be_deleted`: a template with and without the lines.
-/

namespace Mustache

namespace Template

/-- A tag on a line of its own. The tag itself may go over several lines. -/
structure TagLine where
  /-- The blanks in front of the tag. -/
  indent : List Char
  tag : List Char
  /-- The blanks behind the tag. -/
  trail : List Char
  indent_blank : indent.all isInlineBlank = true
  trail_blank : trail.all isInlineBlank = true

/-- The line, with the line feed that ends it. -/
def TagLine.source (l : TagLine) : List Char := l.indent ++ l.tag ++ (l.trail ++ ['\n'])

/-- Whole lines that hold a section, read with the delimiters `d`: from the line of an opening
    tag to the line of the matching closing tag. -/
structure SectionLines (d : Delimiters) (kind : Kind) (key : List Char) where
  opener : TagLine
  /-- The lines between the tags. -/
  body : List Char
  ender : TagLine
  /-- The tokens of the lines between the tags. -/
  tokens : List Token
  opens : scan d opener.tag = .ok [⟨kind, key, 1⟩]
  reads : tokenize d body = .ok tokens
  balanced : Balanced tokens
  endsLine : Text.EndsLine body
  closes : scan (delimitersAfter d body) ender.tag = .ok [⟨.ender, key, 1⟩]

/-- The lines. -/
def SectionLines.source {d : Delimiters} {kind : Kind} {key : List Char}
    (s : SectionLines d kind key) : List Char :=
  s.opener.source ++ s.body ++ s.ender.source

variable {d : Delimiters} {kind : Kind} {key : List Char}

theorem ne_text_of_opens (hr : kind.role = .opens) : kind ≠ .text := by
  rintro rfl
  cases hr

namespace TagLine

theorem endsLine (l : TagLine) : Text.EndsLine l.source := by
  simp [Text.EndsLine, source]

/-- The line of a tag of a section leaves the tag. -/
theorem tokenize_source (l : TagLine) (h : scan d l.tag = .ok [⟨kind, key, 1⟩]) (hd : d.Usable)
    (hr : kind.role ≠ .stays) :
    tokenize d l.source = .ok [⟨kind, key, 1⟩] ∧ delimitersAfter d l.source = d := by
  have hk : kind.mayStandAlone = true ∧ kind ≠ .expansion ∧ kind ≠ .comment := by
    cases kind <;> simp_all [Kind.role, Kind.mayStandAlone]
  obtain ⟨htokens, hlast⟩ := tokenize_line_of_scan h hd hk.1 l.indent_blank l.trail_blank (.inr rfl)
  rw [if_neg fun he => hk.2.1 he.1, List.nil_append] at htokens
  exact ⟨htokens, hlast hk.2.2⟩

end TagLine

namespace SectionLines

variable (s : SectionLines d kind key)

theorem source_endsLine : Text.EndsLine s.source :=
  (s.opener.endsLine.append s.endsLine).append s.ender.endsLine

/-- The lines of a section have its tokens, and the delimiters change only between its tags. -/
theorem exists_tokenize (hd : d.Usable) (hr : kind.role = .opens) :
    (∃ tokens, tokenize d s.source = .ok tokens ∧ tokens.map Token.unlined =
      (⟨kind, key, 1⟩ :: (s.tokens ++ [⟨.ender, key, 1⟩])).map Token.unlined) ∧
    delimitersAfter d s.source = delimitersAfter d s.body := by
  obtain ⟨hopener, hdo⟩ := s.opener.tokenize_source s.opens hd (by rw [hr]; decide)
  -- The line of the opening tag and those behind it, and then the line of the closing tag.
  obtain ⟨front, hfront, hfrontTokens⟩ := exists_tokenize_append hd hopener s.opener.endsLine hdo
    s.reads fun n => joined_singleton_of_ne (ne_text_of_opens hr) _
  have hlf : Text.EndsLine (s.opener.source ++ s.body) := s.opener.endsLine.append s.endsLine
  have hdf : delimitersAfter d (s.opener.source ++ s.body) = delimitersAfter d s.body := by
    rw [delimitersAfter_append hd hopener s.opener.endsLine, hdo]
  obtain ⟨hender, hde⟩ :=
    s.ender.tokenize_source s.closes (usable_delimitersAfter hd s.reads) (by decide)
  obtain ⟨tokens, htokens, he⟩ := exists_tokenize_append hd hfront hlf hdf hender
    fun n => joined_cons_of_ne (b := ⟨.ender, key, 1 + n⟩) (by simp) front []
  refine ⟨⟨tokens, htokens, ?_⟩, ?_⟩
  · rw [he, List.map_append, hfrontTokens, ← List.map_append]
    rfl
  · rw [source, delimitersAfter_append hd hfront hlf, hdf, hde]

end SectionLines

/-- The piece of a section of either sort. -/
def Piece.ofSection (key : List Char) (body : List Piece) : Kind → Piece
  | .inverse => .inverse key body
  | _ => .block key body

theorem nests_ofSection {opener ender : Token} {inner : List Token} {body : List Piece}
    (hr : opener.kind.role = .opens) (hbody : Nests inner body) (he : ender.kind = .ender)
    (hv : opener.value = ender.value) :
    Nests (opener :: (inner ++ [ender])) [.ofSection opener.value body opener.kind] := by
  rcases role_eq_opens_iff.1 hr with hk | hk
  · rw [hk]
    exact .block hk he hv hbody .nil
  · rw [hk]
    exact .inverse hk he hv hbody .nil

/-- Behind a template, the lines of a section are one more piece. -/
theorem SectionLines.exists_nests {d' : Delimiters} {a : List Char} {before : List Token}
    (hd : d.Usable) (ha : tokenize d a = .ok before) (hb : Balanced before)
    (hl : Text.EndsLine a) (hda : delimitersAfter d a = d') (s : SectionLines d' kind key)
    (hr : kind.role = .opens) :
    ∃ tokens, tokenize d (a ++ s.source) = .ok tokens ∧
      Nests tokens (nest before ++ [.ofSection key (nest s.tokens) kind]) := by
  have hd' : d'.Usable := hda ▸ usable_delimitersAfter hd ha
  obtain ⟨lines, hlines, hunlined⟩ := (s.exists_tokenize hd' hr).1
  obtain ⟨first, rest, rfl, hfirst, -⟩ := List.map_eq_cons_iff.1 hunlined
  have htag : first.kind ≠ .text := (eq_of_unlined hfirst).1 ▸ ne_text_of_opens hr
  obtain ⟨tokens, htokens, he⟩ := exists_tokenize_append hd ha hl hda hlines
    fun n => joined_cons_of_ne (b := first.shift n) htag before _
  have hbefore := nests_nest (indentersLead_of_tokenize ha) (Sections.check_of_balanced hb)
  have hbody :=
    nests_nest (indentersLead_of_tokenize s.reads) (Sections.check_of_balanced s.balanced)
  have hsection : Nests (⟨kind, key, 1⟩ :: (s.tokens ++ [⟨.ender, key, 1⟩]))
      [.ofSection key (nest s.tokens) kind] :=
    nests_ofSection hr hbody rfl rfl
  refine ⟨tokens, htokens, (hbefore.append hsection).of_map_unlined ?_⟩
  rw [he, List.map_append, hunlined, List.map_append]

end Template

namespace Render

open Template

/-- A section of a kind is not shown when its key stands for the given value, if for any. -/
inductive Hidden : Kind → Option Context → Prop
  | absent : Hidden .opener none
  | falsy {value : Scalar} : value.truthy = false → Hidden .opener (some (.scalar value))
  | empty : Hidden .opener (some (.array []))
  | truthy {value : Context} : value.truthy = true → Hidden .inverse (some value)

theorem Hidden.opens {kind : Kind} {value : Option Context} (h : Hidden kind value) :
    kind.role = .opens := by
  cases h <;> rfl

variable {settings : Settings} {expansion : Expansion}

/-- A section that is not shown has no output, whatever it holds. -/
theorem evaluate_ofSection_of_hidden {kind : Kind} {key : List Char} {scopes : List Context}
    (h : Hidden kind (Context.resolve scopes key)) (body : List Piece) :
    evaluate settings expansion (.ofSection key body kind) scopes = .ok "" := by
  generalize hv : Context.resolve scopes key = value at h
  cases h with
  | absent => simp [Piece.ofSection, evaluate, hv]
  | falsy hfalsy => simp [Piece.ofSection, evaluate, hv, hfalsy]
  | empty => simp [Piece.ofSection, evaluate, hv, inOrder]
  | truthy htruthy => simp [Piece.ofSection, evaluate, hv, htruthy]

/-- With the lines there is one more piece between those of the template, and it has no output. -/
theorem renderWith_delete {d : Delimiters} {a b key : List Char} {kind : Kind}
    {before tokens : List Token} {scopes : List Context} (hd : settings.delimiters.Usable)
    (ha : tokenize settings.delimiters a = .ok before) (hb : Balanced before)
    (hl : Text.EndsLine a) (hda : delimitersAfter settings.delimiters a = d)
    (s : SectionLines d kind key)
    (hds : delimitersAfter settings.delimiters (a ++ s.source) = d)
    (ht : tokenize settings.delimiters (a ++ s.source ++ b) = .ok tokens)
    (hc : Sections.check tokens = .ok ()) (hh : Hidden kind (Context.resolve scopes key)) :
    renderWith settings expansion (a ++ s.source ++ b) scopes =
      renderWith settings expansion (a ++ b) scopes := by
  obtain ⟨front, hfront, hnests⟩ := s.exists_nests hd ha hb hl hda hh.opens
  have hlf : Text.EndsLine (a ++ s.source) := hl.append s.source_endsLine
  obtain ⟨later, hlater, hlc⟩ := exists_of_tokenize_append hd hfront hnests.balanced hlf ht hc
  have hbefore := nests_nest (indentersLead_of_tokenize ha) (Sections.check_of_balanced hb)
  have hbehind := nests_nest (indentersLead_of_tokenize hlater) hlc
  rw [renderWith_append_of_nests hd hlf hfront hlater hnests hbehind,
    renderWith_append_of_nests hd hl ha (hda.trans hds.symm ▸ hlater) hbefore hbehind,
    List.append_assoc, evaluateAll_append, evaluateAll_append (nest before),
    List.singleton_append, evaluateAll_cons_of_eq_empty (evaluate_ofSection_of_hidden hh _)]

/-- Whole lines of a template that hold a section which is not shown can be deleted from it, if
    they are in no section and the delimiters behind them are those in front of them. What the
    lines hold does not matter otherwise. -/
theorem hidden_lines_can_be_deleted {settings : Settings} {d : Delimiters} {a b : String}
    {kind : Kind} {key : List Char} {before tokens : List Token} {data : Context}
    (hv : settings.fault? = none) (ha : tokenize settings.delimiters a.toList = .ok before)
    (hb : Sections.check before = .ok ()) (hl : Text.EndsLine a.toList)
    (hda : delimitersAfter settings.delimiters a.toList = d) (s : SectionLines d kind key)
    (hds : delimitersAfter settings.delimiters (a.toList ++ s.source) = d)
    (ht : tokenize settings.delimiters (a.toList ++ s.source ++ b.toList) = .ok tokens)
    (hc : Sections.check tokens = .ok ()) (hh : Hidden kind (Context.resolve [data] key)) :
    render settings (a ++ String.ofList s.source ++ b) data = render settings (a ++ b) data := by
  simp only [render, renderAt_eq_renderWith, String.toList_append, String.toList_ofList]
  exact renderWith_delete (Settings.usable_of_fault?_eq_none hv) ha (Sections.check_eq_ok_iff.1 hb)
    hl hda s hds ht hc hh

/-- The lines of a section that change the delimiters and change them back, and hold a section of
    the same name. -/
def changingLines : SectionLines ⟨"<%".toList, "%>".toList⟩ .opener "k".toList where
  opener := ⟨" ".toList, "<%#k%>".toList, [], rfl, rfl⟩
  body := "<%=| |=%>\n|^k|y|/k||>k|\n|=<% %>=|\n".toList
  ender := ⟨[], "<%/k%>".toList, "\t".toList, rfl, rfl⟩
  tokens := [⟨.comment, "| |".toList, 1⟩, ⟨.inverse, "k".toList, 2⟩, ⟨.text, "y".toList, 2⟩,
    ⟨.ender, "k".toList, 2⟩, ⟨.expansion, "k".toList, 2⟩, ⟨.text, "\n".toList, 2⟩,
    ⟨.comment, "<% %>".toList, 3⟩]
  opens := by cbv
  reads := by cbv
  balanced := Sections.check_eq_ok_iff.1 (by cbv)
  endsLine := by simp [Text.EndsLine]
  closes := by cbv

theorem hidden_lines_can_be_deleted_changing :
    let settings : Settings := ⟨⟨"<%".toList, "%>".toList⟩, 1, true⟩
    let data : Context := .object [("x", .string "1"), ("k", .array [])]
    settings.fault? = none ∧ Hidden .opener (Context.resolve [data] "k".toList) ∧
    render settings ("<%x%>\n" ++ String.ofList changingLines.source ++ "<%x%>") data =
      .ok "1\n1" := by
  have hv : Settings.fault? ⟨⟨"<%".toList, "%>".toList⟩, 1, true⟩ = none := by decide
  have ha : tokenize ⟨"<%".toList, "%>".toList⟩ "<%x%>\n".toList =
      .ok [⟨.escaped, "x".toList, 1⟩, ⟨.text, "\n".toList, 1⟩] := by cbv
  have ht : tokenize ⟨"<%".toList, "%>".toList⟩
      ("<%x%>\n".toList ++ changingLines.source ++ "<%x%>".toList) =
        .ok [⟨.escaped, "x".toList, 1⟩, ⟨.text, "\n".toList, 1⟩, ⟨.opener, "k".toList, 2⟩,
          ⟨.comment, "| |".toList, 3⟩, ⟨.inverse, "k".toList, 4⟩, ⟨.text, "y".toList, 4⟩,
          ⟨.ender, "k".toList, 4⟩, ⟨.expansion, "k".toList, 4⟩, ⟨.text, "\n".toList, 4⟩,
          ⟨.comment, "<% %>".toList, 5⟩, ⟨.ender, "k".toList, 6⟩, ⟨.escaped, "x".toList, 7⟩] := by
    cbv
  have hh : Hidden .opener
      (Context.resolve [.object [("x", .string "1"), ("k", .array [])]] "k".toList) :=
    .empty
  refine ⟨hv, hh, (hidden_lines_can_be_deleted hv ha (by cbv) (by simp [Text.EndsLine]) (by cbv)
    changingLines (by cbv) ht (by cbv) hh).trans ?_⟩
  rw [render, renderAt_eq_evaluateAt]
  cbv

end Render

end Mustache
