import Mustache.Text.Digits
import Mustache.Text.Reader

/-!
# Dates and times

A date, a time of day, or both, with or without an offset, as they are written in TOML,
and the one text that each of them has (`Datetime.text`): the two are separated by a `T`,
an offset of zero that is written as a letter is a `Z`, and fractions of a second are cut
off after nine places and have no zeros at the end.

How far hours and offsets go is left open in the grammar (`Limits`): a document keeps to
the clock (`Limits.narrow`), and a string may go a little further (`Datetime.ofText?`).
-/

namespace Mustache.Toml

/-- A day. -/
structure Date where
  year : Nat
  month : Nat
  day : Nat
deriving DecidableEq, Repr

/-- A time of day. -/
structure Time where
  hour : Nat
  minute : Nat
  second : Nat
  nanosecond : Nat
deriving DecidableEq, Repr

/-- How far a time is ahead of universal time. -/
inductive Offset where
  /-- Not at all. -/
  | zulu
  | ahead (minutes : Int)
deriving DecidableEq, Repr

/-- A point in time, as far as it is given. -/
inductive Datetime where
  | date (d : Date)
  | time (t : Time)
  | both (d : Date) (t : Time) (offset : Option Offset)
deriving DecidableEq, Repr

/-- A number with zeros in front, up to a number of digits. -/
def padded (width n : Nat) : List Char :=
  let digits := Nat.toDigits 10 n
  List.replicate (width - digits.length) '0' ++ digits

namespace Date

/-- The text of a day. -/
def text (d : Date) : List Char :=
  padded 4 d.year ++ '-' :: padded 2 d.month ++ '-' :: padded 2 d.day

/-- The number of days in a month of a year. -/
def daysIn (year month : Nat) : Nat :=
  if month = 2 then
    if year % 4 = 0 ∧ (year % 100 ≠ 0 ∨ year % 400 = 0) then 29 else 28
  else if month = 4 ∨ month = 6 ∨ month = 9 ∨ month = 11 then 30
  else 31

end Date

/-- The text of a time of day. -/
def Time.text (t : Time) : List Char :=
  let whole := padded 2 t.hour ++ ':' :: padded 2 t.minute ++ ':' :: padded 2 t.second
  if t.nanosecond = 0 then whole
  else whole ++ '.' :: ((padded 9 t.nanosecond).reverse.dropWhile (· == '0')).reverse

/-- The text of an offset. -/
def Offset.text : Offset → List Char
  | .zulu => ['Z']
  | .ahead minutes =>
    let sign := if minutes < 0 then '-' else '+'
    sign :: padded 2 (minutes.natAbs / 60) ++ ':' :: padded 2 (minutes.natAbs % 60)

/-- The text of a point in time. -/
def Datetime.text : Datetime → String
  | .date d => String.ofList d.text
  | .time t => String.ofList t.text
  | .both d t offset =>
    String.ofList (d.text ++ 'T' :: t.text ++ (offset.map Offset.text).getD [])

open Reader

/-- The greatest numbers that hours and the two parts of an offset may have. -/
structure Limits where
  hour : Nat
  offsetHour : Nat
  offsetMinute : Nat

/-- The limits in a document: those of a clock. -/
def Limits.narrow : Limits := ⟨23, 23, 59⟩

/-- The limits in a string: the hour may be 24, and an offset is limited only as a whole. -/
def Limits.wide : Limits := ⟨24, 99, 99⟩

/-- A number of so many digits that lies between two bounds. -/
def numberWithin (width low high : Nat) : Reader Nat := do
  let n := Text.ofDigits 10 (← exactly Char.isDigit width)
  if low ≤ n ∧ n ≤ high then return n else failure

/-- A day, which must be in the calendar. -/
def readDate : Reader Date := do
  let year ← numberWithin 4 0 9999
  char '-'
  let month ← numberWithin 2 1 12
  char '-'
  let day ← numberWithin 2 1 (Date.daysIn year month)
  return ⟨year, month, day⟩

/-- A time of day. The second may be a leap second. -/
def readTime (limits : Limits) : Reader Time := do
  let hour ← numberWithin 2 0 limits.hour
  char ':'
  let minute ← numberWithin 2 0 59
  char ':'
  let second ← numberWithin 2 0 60
  let fraction ← opt do
    char '.'
    takeWhile1 Char.isDigit
  let places := ((fraction.getD []).take 9).rightpad 9 '0'
  return ⟨hour, minute, second, Text.ofDigits 10 places⟩

/-- An offset, which is at most a day. -/
def readOffset (limits : Limits) : Reader Offset :=
  (do discard (satisfy fun c => c == 'Z' || c == 'z'); return .zulu) <|> do
    let sign ← satisfy fun c => c == '+' || c == '-'
    let hours ← numberWithin 2 0 limits.offsetHour
    char ':'
    let minutes := hours * 60 + (← numberWithin 2 0 limits.offsetMinute)
    if 24 * 60 < minutes then failure
    return .ahead (if sign = '-' then -(minutes : Int) else minutes)

/-- A point in time. -/
def readDatetime (limits : Limits) : Reader Datetime :=
  (do
    let date ← readDate
    let time ← opt do
      discard (satisfy fun c => c == 'T' || c == 't' || c == ' ')
      return (← readTime limits, ← opt (readOffset limits))
    match time with
    | none => return .date date
    | some (t, offset) => return .both date t offset) <|>
  (Datetime.time <$> readTime limits)

/-- The point in time that a string gives. -/
def Datetime.ofText? (text : String) : Option Datetime :=
  readAll (readDatetime .wide) text

end Mustache.Toml
