import Mustache.Proofs.Sections
import Mustache.Render.Machine

/-!
# What a step does

What becomes of the cursor, the scopes and the open sections in one step depends on the
token only through its role: a section is passed over or moved into, a closing tag leaves
the innermost section or goes back to its start, and any other token is just gone by
(`Moves`). Whatever follows a run of the machine need not look into a step any further.

* `moves_of_step`: a step that succeeds is one of these moves.
-/

namespace Mustache.Render

open Template

/-- The scopes that are left when a section is left. -/
def Frame.undo : Frame → List Context → List Context
  | .pass, scopes => scopes
  | .scope, scopes | .loop .., scopes => scopes.tail

/-- What a step at some token does to the cursor, the scopes and the open sections. -/
inductive Moves (tokens : Array Token) (s : State) (token : Token) : State → Prop
  /-- The token is gone by. -/
  | stay {t : State} : token.kind.role = .stays → t.cursor = s.cursor + 1 →
      t.scopes = s.scopes → t.opened = s.opened → Moves tokens s token t
  /-- The section is passed over. -/
  | skip {i : Nat} : token.kind.role = .opens → Sections.closing? tokens s.cursor = some i →
      Moves tokens s token { s with cursor := i + 1 }
  /-- The section is shown in the scopes at hand. -/
  | pass : token.kind.role = .opens → Moves tokens s token (s.enter token.value .pass s.scopes)
  /-- The section is shown with an object in scope. -/
  | scope {entries : List (String × Context)} : token.kind.role = .opens →
      Moves tokens s token (s.enter token.value .scope (.object entries :: s.scopes))
  /-- The section is shown with the first item of an array in scope. -/
  | loop {first : Context} {others : List Context} : token.kind.role = .opens →
      Moves tokens s token (s.enter token.value
        (.loop (first :: others).toArray (s.cursor + 1) (others.length + 1))
        (first :: s.scopes))
  /-- The innermost section is left. -/
  | leave {frame : Frame} {outer : List Opened} : token.kind.role = .closes →
      s.opened = ⟨token.value, frame⟩ :: outer →
      Moves tokens s token
        { s with opened := outer, scopes := frame.undo s.scopes, cursor := s.cursor + 1 }
  /-- The innermost section starts again with the next item of its array in scope. -/
  | again {items : Array Context} {start remaining : Nat} {item : Context}
      {outer : List Opened} : token.kind.role = .closes →
      s.opened = ⟨token.value, .loop items start remaining⟩ :: outer →
      items[items.size - (remaining - 1)]? = some item →
      Moves tokens s token { s with
        opened := ⟨token.value, .loop items start (remaining - 1)⟩ :: outer
        scopes := item :: s.scopes.tail
        cursor := start }

section

variable {tokens : Array Token} {s t : State} {token : Token}

theorem moves_of_skip (hr : token.kind.role = .opens) (h : s.skip tokens token = .ok t) :
    Moves tokens s token t := by
  rw [State.skip] at h
  split at h
  · cases h
  · next hi =>
    cases h
    exact .skip hr hi

theorem moves_of_openSection (hr : token.kind.role = .opens)
    (h : s.openSection tokens token = .ok t) : Moves tokens s token t := by
  rw [State.openSection] at h
  split at h
  · exact moves_of_skip hr h
  · cases h
    exact .scope hr
  · exact moves_of_skip hr h
  · cases h
    exact .loop hr
  · split at h
    · cases h
      exact .pass hr
    · exact moves_of_skip hr h

theorem moves_of_openInverse (hr : token.kind.role = .opens)
    (h : s.openInverse tokens token = .ok t) : Moves tokens s token t := by
  rw [State.openInverse] at h
  split at h
  · exact moves_of_skip hr h
  · cases h
    exact .pass hr

theorem moves_of_close (hr : token.kind.role = .closes) (h : s.close token = .ok t) :
    Moves tokens s token t := by
  rw [State.close] at h
  split at h
  · cases h
  · next name frame outer ho =>
    split at h
    · cases h
    · next hname =>
      obtain rfl : name = token.value := by simpa using hname
      split at h
      · cases h
        exact .leave hr ho
      · cases h
        exact .leave hr ho
      · split at h
        · cases h
          exact .leave hr ho
        · next hitem =>
          cases h
          exact .again hr ho hitem

theorem moves_of_expand {expansion : Expansion} (hr : token.kind.role = .stays)
    (h : s.expand expansion token = .ok t) : Moves tokens s token t := by
  rw [State.expand] at h
  generalize expansion _ _ _ = result at h
  cases result with
  | error e => cases h
  | ok out =>
    cases h
    exact .stay hr rfl rfl rfl

theorem moves_indent (hr : token.kind.role = .stays) (blanks : List Char) :
    Moves tokens s token (s.indent blanks) := by
  rw [State.indent]
  split <;> exact .stay hr rfl rfl rfl

/-- A step that succeeds moves the machine. -/
theorem moves_of_step {settings : Settings} {expansion : Expansion}
    (h : step settings expansion tokens s token = .ok t) : Moves tokens s token t := by
  rw [step] at h
  cases hk : token.kind with
  | text | comment | escaped | unescaped =>
    rw [hk] at h
    cases h
    exact .stay (by rw [hk, Kind.role]) rfl rfl rfl
  | opener =>
    rw [hk] at h
    exact moves_of_openSection (by rw [hk, Kind.role]) h
  | inverse =>
    rw [hk] at h
    exact moves_of_openInverse (by rw [hk, Kind.role]) h
  | ender =>
    rw [hk] at h
    exact moves_of_close (by rw [hk, Kind.role]) h
  | expansion =>
    rw [hk] at h
    exact moves_of_expand (by rw [hk, Kind.role]) h
  | indenter =>
    rw [hk] at h
    cases h
    exact moves_indent (by rw [hk, Kind.role]) _

/-- Opening and closing tags write nothing, and leave what is noted of an indentation. -/
theorem Moves.quiet (h : Moves tokens s token t) (hr : token.kind.role ≠ .stays) :
    t.indentation = s.indentation ∧ t.output = s.output := by
  cases h with
  | stay h => exact absurd h hr
  | skip | pass | scope | loop | leave | again => exact ⟨rfl, rfl⟩

end

end Mustache.Render
