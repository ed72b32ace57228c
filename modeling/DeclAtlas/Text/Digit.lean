/-!
# Digits

Digits in the bases that numbers are written in here: two, eight, ten and sixteen, with
letters of either case above nine.
-/

namespace DeclAtlas.Text

/-- The value of a digit; letters of either case go on from ten. -/
def digitValue? (base : Nat) (c : Char) : Option Nat :=
  let n := c.toNat
  let value :=
    if 48 ≤ n ∧ n ≤ 57 then some (n - 48)
    else if 65 ≤ n ∧ n ≤ 90 then some (n - 55)
    else if 97 ≤ n ∧ n ≤ 122 then some (n - 87)
    else none
  value.filter (· < base)

/-- Is this a digit in a base? -/
def isDigit (base : Nat) (c : Char) : Bool := (digitValue? base c).isSome

/-- The number that digits spell; anything else counts as a zero. -/
def numberOf (base : Nat) (digits : List Char) : Nat :=
  digits.foldl (fun n c => n * base + (digitValue? base c).getD 0) 0

/-- The number that a text of one digit or more spells. -/
def number? (base : Nat) (digits : List Char) : Option Nat :=
  if !digits.isEmpty && digits.all (isDigit base) then some (numberOf base digits) else none

end DeclAtlas.Text
