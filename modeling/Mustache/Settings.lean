import Mustache.Delimiters

/-!
# Settings

How templates are read and rendered: the delimiters that every template and partial
starts with, how deep partials may be nested, and whether values are escaped. Any
settings can be rendered with; those that a user writes down are checked first
(`Settings.fault?`).
-/

namespace Mustache

/-- How templates are read and rendered. -/
structure Settings where
  delimiters : Delimiters := .braces
  maxPartialDepth : Nat := 64
  /-- Whether the value of a variable is escaped. -/
  escapeHtml : Bool := true
deriving DecidableEq, Repr, Inhabited

namespace Settings

/-- Why settings are refused. -/
inductive Fault where
  | delimiters (fault : Delimiters.Fault)
  | noPartialDepth
deriving DecidableEq, Repr

/-- The name of the field at fault. -/
def Fault.field : Fault → String
  | .delimiters _ => "render.delimiters"
  | .noPartialDepth => "render.max_partial_depth"

/-- The wording of a fault. -/
def Fault.reason : Fault → String
  | .delimiters fault => fault.message
  | .noPartialDepth => "must be at least 1"

/-- What is wrong with the settings, the delimiters being looked at first. -/
def fault? (s : Settings) : Option Fault :=
  match s.delimiters.fault? with
  | some fault => some (.delimiters fault)
  | none => if s.maxPartialDepth = 0 then some .noPartialDepth else none

/-- The delimiters of settings without a fault can be used. -/
theorem usable_of_fault?_eq_none {settings : Settings} (h : settings.fault? = none) :
    settings.delimiters.Usable := by
  rw [fault?] at h
  split at h
  · cases h
  · next hd => exact hd

end Settings

end Mustache
