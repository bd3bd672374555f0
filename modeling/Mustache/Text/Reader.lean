/-!
# Readers

A *reader* takes something off the start of a text and gives what it stands for, or
fails. Readers are put together in `do` blocks; `p <|> q` reads `q` where `p` fails,
from the same place.

A reader can be repeated (`many`): as often as it succeeds, but no more often than the
text has characters, so that a repetition always ends.
-/

namespace Mustache

/-- What reads an `α` off the start of a text. -/
abbrev Reader (α : Type) := StateT (List Char) Option α

namespace Reader

variable {α : Type}

/-- The character that comes next, which is not taken. -/
def peek : Reader (Option Char) := do
  return (← get).head?

/-- The next character, of which a condition must hold. -/
def satisfy (p : Char → Bool) : Reader Char := fun text =>
  match text with
  | [] => none
  | c :: rest => if p c then some (c, rest) else none

/-- A given character. -/
def char (c : Char) : Reader Unit := do
  discard (satisfy (· == c))

/-- A given word. -/
def word (w : String) : Reader Unit := fun text =>
  if w.toList.isPrefixOf text then some ((), text.drop w.length) else none

/-- The longest run of characters of which a condition holds. -/
def takeWhile (p : Char → Bool) : Reader (List Char) := fun text =>
  some (text.takeWhile p, text.dropWhile p)

/-- The longest run of characters of which a condition holds, which must not be empty. -/
def takeWhile1 (p : Char → Bool) : Reader (List Char) := fun text =>
  match text.takeWhile p with
  | [] => none
  | run => some (run, text.dropWhile p)

/-- A given number of characters of which a condition holds. -/
def exactly (p : Char → Bool) : Nat → Reader (List Char)
  | 0 => pure []
  | n + 1 => do
    let c ← satisfy p
    return c :: (← exactly p n)

/-- What a reader gives, if it succeeds. -/
def opt (p : Reader α) : Reader (Option α) :=
  (some <$> p) <|> pure none

/-- The end of the text. -/
def eof : Reader Unit := fun text =>
  if text.isEmpty then some ((), []) else none

/-- What a repeated reader gives. The list `bound` is as long as the repetitions
    allowed are many. -/
def manyWithin (p : Reader α) (bound : List Char) (found : List α) (text : List Char) :
    List α × List Char :=
  match bound with
  | [] => (found.reverse, text)
  | _ :: bound =>
    match p text with
    | none => (found.reverse, text)
    | some (a, rest) => manyWithin p bound (a :: found) rest

/-- What a reader gives when it is repeated until it fails. -/
def many (p : Reader α) : Reader (List α) := fun text =>
  some (manyWithin p text [] text)

/-- One or more items with separators between them. -/
def sepBy1 (item : Reader α) (separator : Reader Unit) : Reader (List α) := do
  let first ← item
  return first :: (← many (separator *> item))

/-- Any number of items with separators between them. -/
def sepBy (item : Reader α) (separator : Reader Unit) : Reader (List α) :=
  sepBy1 item separator <|> pure []

/-- What a reader gives for a whole text. -/
def readAll (p : Reader α) (text : String) : Option α :=
  ((p <* eof).run text.toList).map (·.1)

end Reader

end Mustache
