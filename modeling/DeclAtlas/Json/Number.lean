import DeclAtlas.Decimal.Shortest
import DeclAtlas.Word

/-!
# JSON numbers

A number without a fraction and an exponent is an integer if a machine word holds it,
signed or unsigned; every other number is a double. A double is read in two steps: as many
digits as fit an unsigned word become the significand, and the power of ten that is left is
multiplied or divided in double precision. Digits that do not fit count as zeros before the
point and not at all behind it.

An integer is written as it is, a double by its shortest decimal: plain from 1e-5 up to but
not including 1e16, with an exponent elsewhere.
-/

namespace DeclAtlas.Json

open Decimal

/-- A number that was read. -/
inductive Number where
  | integer (n : Int)
  | double (negative : Bool) (magnitude : Binary64)
deriving DecidableEq

/-- Plain from 1e-5 up to but not including 1e16. -/
def numberLayout : Layout := ⟨-5, 16⟩

/-- A number as text. -/
def Number.text : Number → String
  | .integer n => toString n
  | .double negative b => (if negative then "-" else "") ++ numberLayout.writeBinary b

/-- The value of a decimal digit. -/
def digitValue (c : Char) : Nat := c.toNat - 48

/--
Reads digits onto a significand as long as a word holds it: the significand, and the digits
that did not fit.
-/
def takeDigits (significand : Nat) : List Char → Nat × List Char
  | [] => (significand, [])
  | c :: cs =>
    let n := significand * 10 + digitValue c
    if Word.maxUnsigned 64 < n then (significand, c :: cs) else takeDigits n cs

/-- The double nearest to a power of ten, for the powers that are finite. -/
def powerOfTen? (k : Nat) : Option Binary64 := Binary64.round? (tenTo k) 1

/--
A significand times a power of ten, in double precision. Below 10^-308 the division is done
in steps; a few of them reach zero.
-/
def scaleByTen? : (steps : Nat) → Binary64 → Int → Option Binary64
  | steps, b, e =>
    if 0 ≤ e then
      if e ≤ 308 then (powerOfTen? e.toNat).bind b.mul?
      else if b.significand = 0 then some b else none
    else if -308 ≤ e then (powerOfTen? (-e).toNat).bind b.div?
    else if b.significand = 0 then some b
    else match steps with
      | 0 => some Binary64.zero
      | steps + 1 =>
        ((powerOfTen? 308).bind b.div?).bind fun b => scaleByTen? steps b (e + 308)

/-- The greatest exponent that is added up; a greater one is taken as out of range. -/
def maxExponent : Nat := Word.maxSigned 32

/-- A magnitude with a power of ten as it is written. -/
def magnitude? (significand : Nat) (shift : Int) (exponent : List Char) : Option Binary64 :=
  let (negative, digits) := match exponent with
    | '-' :: ds => (true, ds)
    | '+' :: ds => (false, ds)
    | ds => (false, ds)
  let e := digits.foldl (fun n c => n * 10 + digitValue c) 0
  if maxExponent < e then
    if significand ≠ 0 ∧ !negative then none else some Binary64.zero
  else
    let least : Int := -(maxExponent : Int) - 1
    let total := max least (min maxExponent (if negative then shift - e else shift + e))
    (Binary64.round? significand 1).bind fun b => scaleByTen? 4 b total

/-- Reads a number by its digits; `none` for a magnitude that no double holds. -/
def Number.read? (lexeme : String) : Option Number :=
  let cs := lexeme.toList
  let (negative, cs) := match cs with
    | '-' :: cs => (true, cs)
    | cs => (false, cs)
  let whole := cs.takeWhile Char.isDigit
  let rest := cs.dropWhile Char.isDigit
  let (significand, left) := takeDigits 0 whole
  match rest with
  | [] =>
    let asDouble := (magnitude? significand left.length []).map (.double negative)
    if !left.isEmpty then asDouble
    else if !negative then some (.integer significand)
    else if significand ≠ 0 ∧ significand ≤ Word.maxSigned 64 + 1 then some (.integer (-significand))
    else asDouble
  | c :: tail =>
    let fraction := if c = '.' then tail.takeWhile Char.isDigit else []
    let afterFraction := if c = '.' then tail.dropWhile Char.isDigit else rest
    let (significand, unread) := takeDigits significand fraction
    let shift : Int := (left.length : Int) - (fraction.length - unread.length : Nat)
    (magnitude? significand shift (afterFraction.drop 1)).map (.double negative)

/-- An unsigned word by its digits, and nothing else. -/
def readWord? (lexeme : String) : Option Nat :=
  let cs := lexeme.toList
  if cs.all Char.isDigit then
    let n := cs.foldl (fun n c => n * 10 + digitValue c) 0
    if n ≤ Word.maxUnsigned 64 then some n else none
  else none

example : (Number.read? "1.5e-6").map Number.text = some "1.5e-6" := by decide +kernel

example : (Number.read? "-0").map Number.text = some "-0.0" := by decide +kernel

end DeclAtlas.Json
