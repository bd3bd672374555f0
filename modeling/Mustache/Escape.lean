/-!
# Escaping

Text that comes from data is *escaped* before it is put into a document, so that it
cannot be taken for markup: each of five characters is replaced by an entity
(`entityOf`), and all others stay as they are.
-/

namespace Mustache

/-- The entity that stands for a character, where there is one. -/
def entityOf? : Char → Option (List Char)
  | '&' => some "&amp;".toList
  | '<' => some "&lt;".toList
  | '>' => some "&gt;".toList
  | '\\' => some "&#92;".toList
  | '"' => some "&quot;".toList
  | _ => none

/-- How a character is written in a document. -/
def escapeChar (c : Char) : List Char :=
  (entityOf? c).getD [c]

/-- How a text is written in a document. -/
def escape (text : String) : String :=
  String.ofList (text.toList.flatMap escapeChar)

@[simp] theorem toList_escape (text : String) :
    (escape text).toList = text.toList.flatMap escapeChar :=
  String.toList_ofList

/-- Pieces of a text can be escaped one by one. -/
theorem escape_append (s t : String) : escape (s ++ t) = escape s ++ escape t := by
  apply String.toList_inj.1
  simp

end Mustache
