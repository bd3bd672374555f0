/-!
# Blank characters

A *blank* is a character with the Unicode property *White_Space*. Tags are
written with any amount of blanks around their keys, so the scanner trims them
off (`trim`) and separates words by them (`words`). Lines are told apart by the
line feed alone (`lineFeeds`).

* `trim_trim`: what is trimmed has no blanks left to trim.
-/

namespace Mustache.Text

/-- The characters of the Unicode property *White_Space*. -/
def isBlank (c : Char) : Bool :=
  let n := c.toNat
  (0x09 ≤ n && n ≤ 0x0D) || n == 0x20 || n == 0x85 || n == 0xA0 || n == 0x1680 ||
    (0x2000 ≤ n && n ≤ 0x200A) || n == 0x2028 || n == 0x2029 || n == 0x202F ||
    n == 0x205F || n == 0x3000

/-- A text without the blanks it ends with. -/
def trimEnd (s : List Char) : List Char :=
  (s.reverse.dropWhile isBlank).reverse

/-- A text without the blanks it starts and ends with. -/
def trim (s : List Char) : List Char :=
  trimEnd (s.dropWhile isBlank)

/-- The maximal runs of a text that hold no blank, in order. -/
def words (s : List Char) : List (List Char) :=
  (s.splitOnP isBlank).filter fun w => !w.isEmpty

/-- The number of line feeds in a text. -/
def lineFeeds (s : List Char) : Nat :=
  s.count '\n'

/-- Dropping a leading run leaves nothing of it to drop. -/
private theorem dropWhile_dropWhile (p : Char → Bool) (s : List Char) :
    (s.dropWhile p).dropWhile p = s.dropWhile p := by
  induction s with
  | nil => rfl
  | cons c s ih => by_cases h : p c <;> simp [h, ih]

/-- Trimming the end again changes nothing. -/
theorem trimEnd_trimEnd (s : List Char) : trimEnd (trimEnd s) = trimEnd s := by
  simp [trimEnd, dropWhile_dropWhile]

/-- A text that does not start with a blank does not do so after its end is trimmed. -/
private theorem dropWhile_trimEnd {s : List Char} (h : s.dropWhile isBlank = s) :
    (trimEnd s).dropWhile isBlank = trimEnd s := by
  cases s with
  | nil => rfl
  | cons c s =>
    have hc : isBlank c = false := by
      cases hb : isBlank c with
      | false => rfl
      | true =>
        have hl := congrArg List.length h
        have hs := (List.dropWhile_sublist (l := s) isBlank).length_le
        simp [hb] at hl
        omega
    have hk : trimEnd (c :: s) = c :: trimEnd s := by
      have hd : ∀ t : List Char,
          (t ++ [c]).dropWhile isBlank = t.dropWhile isBlank ++ [c] := by
        intro t
        induction t with
        | nil => simp [hc]
        | cons d t ih => by_cases hd : isBlank d <;> simp [hd, ih]
      simp [trimEnd, hd]
    rw [hk, List.dropWhile_cons, hc]
    rfl

/-- What is trimmed has no blanks left to trim. -/
theorem trim_trim (s : List Char) : trim (trim s) = trim s := by
  have h : (trim s).dropWhile isBlank = trim s :=
    dropWhile_trimEnd (dropWhile_dropWhile isBlank s)
  rw [trim, h, trim, trimEnd_trimEnd]

@[simp] theorem lineFeeds_append (s t : List Char) :
    lineFeeds (s ++ t) = lineFeeds s + lineFeeds t :=
  List.count_append

end Mustache.Text
