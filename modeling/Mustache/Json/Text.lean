import Mustache.Json.Number
import Mustache.Text.Reader

/-!
# Reading JSON

The grammar of RFC 8259. Arrays and objects may be nested up to 127 levels deep, of
several entries of an object with the same key the last one counts, and every character
written in escapes must exist.
-/

namespace Mustache.Json

open Reader

/-- Passes over blanks. -/
def blanks : Reader Unit := do
  discard (takeWhile fun c => c == ' ' || c == '\t' || c == '\n' || c == '\r')

/-- Four digits in base sixteen. -/
def codeUnit : Reader Nat :=
  Text.ofDigits 16 <$> exactly Text.isHexDigit 4

/-- What follows a backslash and a `u`: a character, or the first half of one, with which
    an escape of the second half must come. -/
def unicodeEscape : Reader Char := do
  let unit ← codeUnit
  if 0xD800 ≤ unit && unit < 0xDC00 then
    word "\\u"
    let low ← codeUnit
    if 0xDC00 ≤ low && low < 0xE000 then
      StateT.lift (Text.charOf? (0x10000 + (unit - 0xD800) * 0x400 + (low - 0xDC00)))
    else failure
  else StateT.lift (Text.charOf? unit)

/-- What follows a backslash. -/
def escapeSequence : Reader Char := do
  match ← satisfy fun _ => true with
  | '"' => return '"'
  | '\\' => return '\\'
  | '/' => return '/'
  | 'b' => return '\x08'
  | 'f' => return '\x0c'
  | 'n' => return '\n'
  | 'r' => return '\r'
  | 't' => return '\t'
  | 'u' => unicodeEscape
  | _ => failure

/-- A string. -/
def string : Reader String := do
  char '"'
  let pieces ← many
    (takeWhile1 (fun c => 0x20 ≤ c.toNat && c != '"' && c != '\\') <|>
      (do char '\\'; return [← escapeSequence]))
  char '"'
  return String.ofList pieces.flatten

/-- A number. -/
def number : Reader Number := do
  let negative := (← opt (char '-')).isSome
  let whole ← (do char '0'; return ['0']) <|> takeWhile1 Char.isDigit
  let fraction ← opt do
    char '.'
    takeWhile1 Char.isDigit
  let exponent ← opt do
    discard (satisfy fun c => c == 'e' || c == 'E')
    let sign ← opt (satisfy fun c => c == '+' || c == '-')
    let size := Text.ofDigits 10 (← takeWhile1 Char.isDigit)
    return if sign = some '-' then -(size : Int) else size
  StateT.lift (Literal.number? ⟨negative, whole, fraction, exponent⟩)

/-- A value that holds no others. -/
def single : Reader Value :=
  (do word "null"; return .null) <|>
  (do word "true"; return .bool true) <|>
  (do word "false"; return .bool false) <|>
  (Value.string <$> string) <|>
  (Value.number <$> number)

/-- A comma among blanks. -/
def comma : Reader Unit := do
  blanks
  char ','
  blanks

/-- An array, given how its items are read. -/
def array (value : Reader Value) : Reader Value := do
  char '['
  blanks
  let items ← sepBy value comma
  blanks
  char ']'
  return .array items

/-- An object, given how the values of its entries are read. -/
def object (value : Reader Value) : Reader Value := do
  char '\x7b'
  blanks
  let entry : Reader (String × Value) := do
    let key ← string
    blanks
    char ':'
    blanks
    return (key, ← value)
  let entries ← sepBy entry comma
  blanks
  char '\x7d'
  return .object (Entries.ofList entries)

/-- A value with arrays and objects nested in it up to a number of levels. -/
def value : Nat → Reader Value
  | 0 => single
  | levels + 1 => do
    match ← peek with
    | some '[' => array (value levels)
    | some '\x7b' => object (value levels)
    | _ => single

/-- The value that a text is written for. -/
def Value.parse? (text : String) : Option Value :=
  readAll (blanks *> value 127 <* blanks) text

end Mustache.Json
