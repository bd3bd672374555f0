/-!
# The first occurrence of a word

A text is cut at the first place where a given *word* occurs (`splitBefore`).
The word may be empty, and then occurs everywhere, so the cut is at the start.

* `splitBefore_append`: the two pieces make up the text;
* `splitBefore_cons`: the cut, one character of the text at a time.
-/

namespace Mustache.Text

/-- The text before the first occurrence of `word`, and the text from there on.
    Where it does not occur, the second piece is empty. -/
def splitBefore (word text : List Char) : List Char × List Char :=
  go [] text
where
  /-- The cut of a text of which `seen`, last character first, has no occurrence
      of the word starting in it. -/
  go (seen : List Char) : List Char → List Char × List Char
    | [] => (seen.reverse, [])
    | c :: rest =>
      if word.isPrefixOf (c :: rest) then (seen.reverse, c :: rest)
      else go (c :: seen) rest

theorem splitBefore_go_eq (word seen text : List Char) :
    splitBefore.go word seen text =
      (seen.reverse ++ (splitBefore.go word [] text).1, (splitBefore.go word [] text).2) := by
  induction text generalizing seen with
  | nil => simp [splitBefore.go]
  | cons c rest ih =>
    by_cases h : word.isPrefixOf (c :: rest)
    · simp [splitBefore.go, h]
    · simp only [splitBefore.go, h, Bool.false_eq_true, if_false]
      rw [ih (c :: seen), ih [c]]
      simp

@[simp] theorem splitBefore_nil (word : List Char) : splitBefore word [] = ([], []) := rfl

/-- The cut, one character of the text at a time. -/
theorem splitBefore_cons (word : List Char) (c : Char) (rest : List Char) :
    splitBefore word (c :: rest) =
      if word.isPrefixOf (c :: rest) then ([], c :: rest)
      else (c :: (splitBefore word rest).1, (splitBefore word rest).2) := by
  rw [splitBefore, splitBefore.go]
  split
  · rfl
  · rw [splitBefore_go_eq]
    rfl

/-- The two pieces make up the text. -/
theorem splitBefore_append (word text : List Char) :
    (splitBefore word text).1 ++ (splitBefore word text).2 = text := by
  induction text with
  | nil => rfl
  | cons c rest ih =>
    rw [splitBefore_cons]
    split
    · rfl
    · rw [List.cons_append, ih]

/-- An empty word occurs at once. -/
theorem splitBefore_nil_left (text : List Char) : splitBefore [] text = ([], text) := by
  cases text with
  | nil => rfl
  | cons c rest => rw [splitBefore_cons]; rfl

end Mustache.Text
