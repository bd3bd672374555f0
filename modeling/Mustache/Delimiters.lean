import Mustache.Text.Blank

/-!
# Delimiters

A tag stands between an opening and a closing *delimiter*. Any two words may
serve (`Delimiters.Usable`), except that neither is empty and neither holds a
blank or an equals sign: blanks separate the two delimiters in a tag that changes
them, and an equals sign ends it.
-/

namespace Mustache

/-- The pair of texts that enclose every tag. -/
structure Delimiters where
  opening : List Char
  closing : List Char
deriving DecidableEq, Repr

namespace Delimiters

/-- Double braces, which a template starts with unless told otherwise. -/
def braces : Delimiters := ⟨['{', '{'], ['}', '}']⟩

instance : Inhabited Delimiters := ⟨braces⟩

/-- Which of the two delimiters a fault lies in. -/
inductive Side where
  | opening
  | closing
deriving DecidableEq, Repr

/-- Why a pair of delimiters cannot be used. -/
inductive Fault where
  /-- The delimiter is empty. -/
  | empty (side : Side)
  /-- The delimiter holds a blank or an equals sign. -/
  | reserved (side : Side) (delimiter : List Char)
deriving DecidableEq, Repr

/-- The name of a side in messages. -/
def Side.text : Side → String
  | .opening => "opening"
  | .closing => "closing"

/-- The wording of a fault. -/
def Fault.message : Fault → String
  | .empty side => s!"{side.text} delimiter is empty"
  | .reserved side delimiter =>
    s!"{side.text} delimiter '{String.ofList delimiter}' contains whitespace or '='"

/-- Whether a character cannot be part of a delimiter. -/
def isReserved (c : Char) : Bool :=
  Text.isBlank c || c == '='

/-- The fault of one delimiter, if it has any. -/
def faultOf (side : Side) (delimiter : List Char) : Option Fault :=
  if delimiter.isEmpty then some (.empty side)
  else if delimiter.any isReserved then some (.reserved side delimiter)
  else none

/-- The fault of a pair, that of the opening delimiter first. -/
def fault? (d : Delimiters) : Option Fault :=
  (faultOf .opening d.opening).or (faultOf .closing d.closing)

/-- A pair without a fault. -/
def Usable (d : Delimiters) : Prop := d.fault? = none

instance (d : Delimiters) : Decidable d.Usable :=
  inferInstanceAs (Decidable (d.fault? = none))

/-- Either side alone is usable iff it is not empty and holds no reserved character. -/
theorem faultOf_eq_none_iff {side : Side} {delimiter : List Char} :
    faultOf side delimiter = none ↔
      delimiter ≠ [] ∧ ∀ c ∈ delimiter, isReserved c = false := by
  unfold faultOf
  split
  · simp_all
  · split <;> simp_all

end Delimiters

end Mustache
