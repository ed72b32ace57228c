import DeclAtlas.Decimal.Binary64
import DeclAtlas.Text.Digit
import DeclAtlas.Toml.Moment
import DeclAtlas.Word

/-!
# TOML words

Everything that is neither quoted nor bracketed is one word: a truth value, an integer, a
number with a fraction or an exponent, or a moment in time. A date may be divided from its
time of day by a blank, and is two words then.

Integers are those of a signed machine word. A number with a fraction must not be greater
than every double.
-/

namespace DeclAtlas.Toml

open Decimal (Binary64 tenTo)

/-! ## Numbers -/

/--
Digits in which single underscores may stand between two digits: without the underscores.
-/
def grouped? (base : Nat) : List Char → Option (List Char)
  | [] => none
  | [c] => if Text.isDigit base c then some [c] else none
  | c :: '_' :: rest => if Text.isDigit base c then (grouped? base rest).map (c :: ·) else none
  | c :: rest => if Text.isDigit base c then (grouped? base rest).map (c :: ·) else none

/-- Splits off a sign: is it a minus? -/
def splitSign (cs : List Char) : Bool × List Char :=
  match cs with
  | '-' :: rest => (true, rest)
  | '+' :: rest => (false, rest)
  | cs => (false, cs)

/-- The digits of a whole number in base ten, which has no zero in front. -/
def whole? (cs : List Char) : Option (List Char) :=
  match cs with
  | '0' :: _ :: _ => none
  | cs => grouped? 10 cs

/-- An integer by its digits, if it fits a signed machine word. -/
def fitting? (negative : Bool) (n : Nat) : Option Int :=
  if negative then if n ≤ Word.maxSigned 64 + 1 then some (-n) else none
  else if n ≤ Word.maxSigned 64 then some n else none

/-- An integer in base ten, or without a sign in base sixteen, eight or two. -/
def integer? (word : List Char) : Option Int :=
  let inBase (base : Nat) (digits : List Char) : Option Int :=
    (grouped? base digits).bind fun ds => fitting? false (Text.numberOf base ds)
  match word with
  | '0' :: 'x' :: digits => inBase 16 digits
  | '0' :: 'o' :: digits => inBase 8 digits
  | '0' :: 'b' :: digits => inBase 2 digits
  | word =>
    let (negative, digits) := splitSign word
    (whole? digits).bind fun ds => fitting? negative (Text.numberOf 10 ds)

/-- Is `digits` times a power of ten less than half a unit above the greatest double? -/
def isFinite (digits : List Char) (exponent : Int) : Bool :=
  let n := Text.numberOf 10 digits
  let places := (digits.dropWhile (· = '0')).length + exponent
  if n = 0 ∨ places ≤ 308 then true
  else if 309 < places then false
  else if 0 ≤ exponent then (Binary64.round? (n * tenTo exponent.toNat) 1).isSome
  else (Binary64.round? n (tenTo (-exponent).toNat)).isSome

/-- Does a word spell a number with a fraction, an exponent or both? -/
def isFloat (word : List Char) : Bool :=
  let (negative, cs) := splitSign word
  let isExponentMark (c : Char) := c == 'e' || c == 'E'
  let mantissa := cs.takeWhile fun c => !isExponentMark c
  let exponentPart := cs.dropWhile fun c => !isExponentMark c
  let whole := mantissa.takeWhile (· ≠ '.')
  let fractionPart := mantissa.dropWhile (· ≠ '.')
  let fraction? := match fractionPart with
    | [] => some []
    | _ :: digits => grouped? 10 digits
  let exponent? : Option Int := match exponentPart with
    | [] => some 0
    | _ :: digits =>
      let (negative, digits) := splitSign digits
      (grouped? 10 digits).map fun ds =>
        let n : Int := Text.numberOf 10 ds
        if negative then -n else n
  match whole? whole, fraction?, exponent? with
  | some whole, some fraction, some exponent =>
    !(fractionPart.isEmpty && exponentPart.isEmpty) &&
      (negative || isFinite (whole ++ fraction) (exponent - fraction.length))
  | _, _, _ => false

/-- Is this infinity or not a number, with a sign or without? -/
def isSpecialFloat (word : List Char) : Bool :=
  let digits := (splitSign word).2
  digits == ['i', 'n', 'f'] || digits == ['n', 'a', 'n']

/-! ## Words -/

/-- The characters that words are made of. -/
def isWordChar (c : Char) : Bool :=
  Text.isDigit 36 c || c == '+' || c == '-' || c == '.' || c == '_' || c == ':'

/-- The value that one word spells. -/
def wordValue? (word : List Char) : Option Value :=
  let lexeme := String.ofList word
  if word = ['t', 'r', 'u', 'e'] then some (.boolean true)
  else if word = ['f', 'a', 'l', 's', 'e'] then some (.boolean false)
  else if isMomentWord word then some (.moment lexeme)
  else if isFloat word || isSpecialFloat word then some (.float lexeme)
  else (integer? word).map .integer

/--
Reads a value that is a word, or a date with its time of day behind a blank: the value, and
what follows.
-/
def readScalar (cs : List Char) : Option (Value × List Char) :=
  let word := cs.takeWhile isWordChar
  let rest := cs.dropWhile isWordChar
  let second := (rest.drop 1).takeWhile isWordChar
  if afterDate? word = some [] ∧ rest.head? = some ' ' ∧ second ≠ [] then
    if isTimeWord second then
      some (.moment (String.ofList (word ++ ' ' :: second)),
        (rest.drop 1).dropWhile isWordChar)
    else none
  else (wordValue? word).map (·, rest)

end DeclAtlas.Toml
