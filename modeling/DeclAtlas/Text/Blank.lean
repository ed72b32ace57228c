/-!
# Blank characters

Type spellings, settings and compiler messages are trimmed and split at the characters
that Unicode calls White_Space: the five controls from tab to carriage return, the space,
NEL, the no-break space and the nine kinds of typographic space and separator. The ASCII
notion of whitespace is too narrow for all three.

Text is handled as a list of characters: trimming is then two runs of `dropWhile`, and
every fact about it is a fact about lists.

## Main results

* `trimStart_append_blank`, `trimEnd_append_blank`: blanks at an end do not survive.
-/

namespace DeclAtlas.Text

/-- Unicode White_Space, all twenty-five characters of it. -/
def isBlank (c : Char) : Bool :=
  let n := c.toNat
  (9 ≤ n && n ≤ 13) || n == 0x20 || n == 0x85 || n == 0xA0 || n == 0x1680 ||
  (0x2000 ≤ n && n ≤ 0x200A) || n == 0x2028 || n == 0x2029 || n == 0x202F ||
  n == 0x205F || n == 0x3000

/-- Without the blanks at the front. -/
def trimStart (cs : List Char) : List Char := cs.dropWhile isBlank

/-- Without the blanks at the back. -/
def trimEnd (cs : List Char) : List Char := (cs.reverse.dropWhile isBlank).reverse

/-- Without the blanks at both ends. -/
def trimChars (cs : List Char) : List Char := trimEnd (trimStart cs)

/-- `trimChars` on strings. -/
def trim (s : String) : String := String.ofList (trimChars s.toList)

/--
The words of a text: its longest runs without a blank, in order. `word` holds the
characters of the word being read, last one first.
-/
def wordsFrom (word : List Char) : List Char → List (List Char)
  | [] => if word.isEmpty then [] else [word.reverse]
  | c :: cs =>
    if isBlank c then
      if word.isEmpty then wordsFrom [] cs else word.reverse :: wordsFrom [] cs
    else wordsFrom (c :: word) cs

/-- The longest runs without a blank. -/
def words (cs : List Char) : List (List Char) := wordsFrom [] cs

/-! ## Small lemmas -/

@[simp] theorem trimStart_nil : trimStart [] = [] := rfl

@[simp] theorem trimEnd_nil : trimEnd [] = [] := rfl

theorem trimStart_append_blank {c : Char} (h : isBlank c) (cs : List Char) :
    trimStart (c :: cs) = trimStart cs := by
  simp [trimStart, h]

theorem trimEnd_append_blank {c : Char} (h : isBlank c) (cs : List Char) :
    trimEnd (cs ++ [c]) = trimEnd cs := by
  simp [trimEnd, h]

end DeclAtlas.Text
