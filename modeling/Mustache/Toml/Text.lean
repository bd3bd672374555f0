import Mustache.Decimal.Float
import Mustache.Toml.Settled
import Mustache.Toml.Table

/-!
# Reading TOML

The grammar of TOML 1.0. Arrays and inline tables may be nested up to 79 levels deep,
and a key may have up to 79 names. Integers must fit into 64 bits; a number too great to
be finite has no value, unless it is negative.

A document is a list of entries under headers (`Section`), of which the tables are then
built up (`Document.table?`). It can be taken as it is written (`written?`) or for the
data that it gives (`parse?`), in which some tables are dates.
-/

namespace Mustache.Toml

open Reader

/-! ## Blanks, lines and remarks -/

/-- Whether a character is a blank inside a line. -/
def isSpace (c : Char) : Bool :=
  c == ' ' || c == '\t'

/-- Whether a character may stand in a remark or a string. -/
def isPrintable (c : Char) : Bool :=
  c == '\t' || (0x20 ≤ c.toNat && c.toNat != 0x7F)

/-- Passes over the blanks inside a line. -/
def spaces : Reader Unit := do
  discard (takeWhile isSpace)

/-- The end of a line. -/
def newline : Reader Unit :=
  char '\n' <|> word "\r\n"

/-- A remark, up to the end of the line. -/
def remark : Reader Unit := do
  char '#'
  discard (takeWhile isPrintable)

/-- Passes over blanks, line ends and remarks. -/
def gap : Reader Unit := do
  discard (many (discard (takeWhile1 isSpace) <|> newline <|> remark))

/-- The rest of a line after what stands on it. -/
def lineEnd : Reader Unit := do
  spaces
  discard (opt remark)
  newline <|> eof

/-! ## Strings -/

/-- A character given by a number of digits of its code point. -/
def codePoint (digits : Nat) : Reader Char := do
  StateT.lift (Text.charOf? (Text.ofDigits 16 (← exactly Text.isHexDigit digits)))

/-- What follows a backslash. -/
def escapeSequence : Reader Char := do
  match ← satisfy fun _ => true with
  | 'b' => return '\x08'
  | 't' => return '\t'
  | 'n' => return '\n'
  | 'f' => return '\x0c'
  | 'r' => return '\r'
  | '"' => return '"'
  | '\\' => return '\\'
  | 'u' => codePoint 4
  | 'U' => codePoint 8
  | _ => failure

/-- A character written as an escape. -/
def escaped : Reader (List Char) := do
  char '\\'
  return [← escapeSequence]

/-- A line that is continued on the next one with text in it. -/
def continuation : Reader (List Char) := do
  char '\\'
  spaces
  newline
  discard (many (discard (takeWhile1 isSpace) <|> newline))
  return []

/-- A string on one line, between double quotes. -/
def basicString : Reader (List Char) := do
  char '"'
  let pieces ← many
    (takeWhile1 (fun c => isPrintable c && c != '"' && c != '\\') <|> escaped)
  char '"'
  return pieces.flatten

/-- A string on one line, between single quotes, in which every character stands for
    itself. -/
def literalString : Reader (List Char) := do
  char '\''
  let text ← takeWhile fun c => isPrintable c && c != '\''
  char '\''
  return text

/-- One or two quotes, which do not end a string that takes three. -/
def fewQuotes (quote : Char) : Reader (List Char) := do
  let quotes ← takeWhile1 (· == quote)
  if quotes.length < 3 then return quotes else failure

/-- The three quotes that end a string, and one or two before them that belong to it. -/
def closingQuotes (quote : Char) : Reader (List Char) := do
  let quotes ← takeWhile1 (· == quote)
  if 3 ≤ quotes.length ∧ quotes.length ≤ 5 then return quotes.drop 3 else failure

/-- A string on several lines, between three quotes, given how its pieces are read. -/
def linesString (quote : Char) (piece : Reader (List Char)) : Reader (List Char) := do
  discard (exactly (· == quote) 3)
  discard (opt newline)
  let pieces ← many
    (piece <|> (do newline; return ['\n']) <|> fewQuotes quote)
  return pieces.flatten ++ (← closingQuotes quote)

/-- A string on several lines, between double quotes. -/
def basicLines : Reader (List Char) :=
  linesString '"'
    (takeWhile1 (fun c => isPrintable c && c != '"' && c != '\\') <|> continuation <|> escaped)

/-- A string on several lines, between single quotes. -/
def literalLines : Reader (List Char) :=
  linesString '\'' (takeWhile1 fun c => isPrintable c && c != '\'')

/-- A string of any of the four sorts. -/
def string : Reader String :=
  String.ofList <$> (basicLines <|> basicString <|> literalLines <|> literalString)

/-! ## Keys -/

/-- Whether a character may stand in a name without quotes. -/
def isBare (c : Char) : Bool :=
  c.isAlphanum || c == '_' || c == '-'

/-- One name of a key. -/
def name : Reader String :=
  String.ofList <$> (basicString <|> literalString <|> takeWhile1 isBare)

/-- The names of a key before the last one, and the last one. -/
def key : Reader (List String × String) := do
  let names ← sepBy1 (spaces *> name <* spaces) (char '.')
  match names.getLast? with
  | none => failure
  | some last => if names.length < 80 then return (names.dropLast, last) else failure

/-! ## Numbers -/

/-- Digits, which may have single underscores between them. -/
def digitRun (isDigit : Char → Bool) : Reader (List Char) := do
  let first ← satisfy isDigit
  return first :: (← many (satisfy isDigit <|> (char '_' *> satisfy isDigit)))

/-- A sign: whether it is a minus. -/
def sign : Reader Bool := do
  return (← opt (satisfy fun c => c == '+' || c == '-')) == some '-'

/-- The digits of a decimal integer, which has no zeros in front. -/
def wholeDigits : Reader (List Char) :=
  (do char '0'; return ['0']) <|> digitRun Char.isDigit

/-- A whole number in another base, after its mark. -/
def basedInteger (mark : String) (base : Nat) (isDigit : Char → Bool) : Reader Int64 := do
  word mark
  StateT.lift (Text.int64Of? (Text.ofDigits base (← digitRun isDigit)))

/-- A whole number. -/
def integer : Reader Int64 :=
  basedInteger "0x" 16 Text.isHexDigit <|>
  basedInteger "0o" 8 (fun c => '0' ≤ c && c ≤ '7') <|>
  basedInteger "0b" 2 (fun c => c == '0' || c == '1') <|> do
    let negative ← sign
    let size := Text.ofDigits 10 (← wholeDigits)
    StateT.lift (Text.int64Of? (if negative then -(size : Int) else size))

/-- The exponent of a number. -/
def exponent : Reader Int := do
  discard (satisfy fun c => c == 'e' || c == 'E')
  let negative ← sign
  let size := Text.ofDigits 10 (← digitRun Char.isDigit)
  return if negative then -(size : Int) else size

/-- A number with a fraction, an exponent, or both. -/
def real : Reader Float := do
  let negative ← sign
  let whole ← wholeDigits
  let fraction ← opt do
    char '.'
    digitRun Char.isDigit
  let scale ← opt exponent
  if fraction.isNone && scale.isNone then failure
  let places := fraction.getD []
  let size := Decimal.toFloat
    ⟨Text.ofDigits 10 (whole ++ places), scale.getD 0 - places.length⟩
  if negative then return -size
  else if size.isInf then failure
  else return size

/-- Infinity, or what is not a number. -/
def special : Reader Float := do
  let negative ← sign
  let size ← (do word "inf"; return Decimal.infinity) <|> (do word "nan"; return Decimal.notANumber)
  return if negative then -size else size

/-! ## Values -/

/-- A value that holds no others. -/
def single : Reader Value :=
  (Value.string <$> string) <|>
  (Value.datetime <$> readDatetime .narrow) <|>
  (Value.float <$> (real <|> special)) <|>
  (Value.integer <$> integer) <|>
  (do word "true"; return .bool true) <|>
  (do word "false"; return .bool false)

/-- An array, given how its items are read. A comma may follow the last one. -/
def array (value : Reader Value) : Reader Value := do
  char '['
  let items ← sepBy (gap *> value <* gap) (char ',')
  if !items.isEmpty then discard (opt (char ','))
  gap
  char ']'
  return .array items

/-- A key with a value, given how that is read. -/
def entry (value : Reader Value) : Reader (List String × String × Value) := do
  let (path, last) ← key
  char '='
  spaces
  return (path, last, ← value)

/-- A table on one line, given how its values are read. -/
def inlineTable (value : Reader Value) : Reader Value := do
  char '\x7b'
  let entries ← sepBy (entry value <* spaces) (char ',')
  spaces
  char '\x7d'
  let table ← StateT.lift ((Table.empty .header).addEntries entries)
  return .table (Node.toEntries table.entries)

/-- A value with arrays and tables nested in it up to a number of levels. -/
def value : Nat → Reader Value
  | 0 => single
  | levels + 1 => do
    match ← peek with
    | some '[' => array (value levels)
    | some '\x7b' => inlineTable (value levels)
    | _ => single

/-! ## Documents -/

/-- What stands above some entries. -/
inductive Header where
  /-- The header of a table. -/
  | table (path : List String) (key : String)
  /-- The header of one more table of an array. -/
  | item (path : List String) (key : String)

/-- What a line says, if anything. -/
inductive Line where
  | nothing
  | header (h : Header)
  | entry (path : List String) (key : String) (v : Value)

/-- The entries under a header. -/
structure Section where
  header : Header
  entries : List (List String × String × Value)

/-- The lines of a document, put in order. -/
structure Document where
  /-- The entries before the first header. -/
  entries : List (List String × String × Value)
  sections : List Section

/-- One line. -/
def line : Reader Line := do
  spaces
  match ← peek with
  | some '[' =>
    let header ←
      (do
        word "[["
        let (path, last) ← key
        word "]]"
        return Header.item path last) <|>
      (do
        char '['
        let (path, last) ← key
        char ']'
        return Header.table path last)
    lineEnd
    return .header header
  | some '#' => remark; newline <|> eof; return .nothing
  | some '\n' | some '\r' => newline; return .nothing
  | _ =>
    let (path, last, v) ← entry (value 79)
    lineEnd
    return .entry path last v

namespace Document

/-- A document with one more line in front. -/
def addLine (l : Line) (d : Document) : Document :=
  match l with
  | .nothing => d
  | .entry path key v => { d with entries := (path, key, v) :: d.entries }
  | .header h => ⟨[], ⟨h, d.entries⟩ :: d.sections⟩

/-- A document, which may start with a byte order mark. -/
def read : Reader Document := do
  discard (opt (char '\ufeff'))
  let lines ← many line
  spaces
  return lines.foldr addLine ⟨[], []⟩

/-- The table that a document writes. -/
def table? (d : Document) : Option Table := do
  let start ← (Table.empty .header).addEntries d.entries
  d.sections.foldlM (fun t s =>
    match s.header with
    | .table path key => t.addTable path key s.entries
    | .item path key => t.addItem path key s.entries) start

end Document

/-- The entries of the document in a text, as they are written. -/
def written? (text : String) : Option (List (String × Value)) := do
  let document ← readAll Document.read text
  return Node.toEntries (← document.table?).entries

/-- The entries that the document in a text gives. The document itself is no date. -/
def parse? (text : String) : Option (Entries Value) := do
  return Entries.ofList (← Value.settleEntries? (← written? text))

end Mustache.Toml
