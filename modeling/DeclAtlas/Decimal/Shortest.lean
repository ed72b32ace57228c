import DeclAtlas.Decimal.Binary64

/-!
# Shortest decimals

A double is written with the fewest decimal digits that read back as the same double, and
among those with the digits nearest to it. For one digit, two digits and so on, the two
multiples of the power of ten around the double are tried; the first that lies among the
numbers that round to the double is taken.

Small and large magnitudes are written with an exponent, the others in full and with at
least one digit after the point.
-/

namespace DeclAtlas.Decimal

/-- A decimal number: `digits * 10 ^ exponent`. -/
structure Scientific where
  digits : Nat
  exponent : Int
deriving DecidableEq

/-- How `c * 10 ^ k` compares with `x * 2 ^ e`. -/
def compareScaled (c : Nat) (k : Int) (x : Nat) (e : Int) : Ordering :=
  compare (c * tenTo k.toNat * twoTo (-e).toNat) (x * twoTo e.toNat * tenTo (-k).toNat)

/--
The numbers that round to a magnitude: quarter units from its lower to its upper end, and
whether the ends belong to it. Below a power of two the doubles lie twice as dense.
-/
structure Neighbourhood where
  low : Nat
  middle : Nat
  high : Nat
  /-- The exponent of the quarter units. -/
  exponent : Int
  closed : Bool

/-- The numbers that round to a positive magnitude. -/
def Neighbourhood.of (b : Binary64) : Neighbourhood where
  low :=
    if b.significand = twoTo 52 ∧ Binary64.minExponent < b.exponent then 4 * b.significand - 1
    else 4 * b.significand - 2
  middle := 4 * b.significand
  high := 4 * b.significand + 2
  exponent := b.exponent - 2
  closed := b.significand % 2 = 0

/-- Does a decimal number round to the magnitude? -/
def Neighbourhood.contains (n : Neighbourhood) (d : Scientific) : Bool :=
  let low := compareScaled d.digits d.exponent n.low n.exponent
  let high := compareScaled d.digits d.exponent n.high n.exponent
  if n.closed then low.isGE && high.isLE else low.isGT && high.isLT

/-- The greatest `e` for which `10 ^ e` is at most a positive magnitude. -/
def log10 (b : Binary64) : Int :=
  let guess := ((Nat.log2 b.significand : Int) + b.exponent) * 1233 / 4096
  if (compareScaled 1 (guess + 1) b.significand b.exponent).isLE then guess + 1
  else if (compareScaled 1 guess b.significand b.exponent).isLE then guess
  else guess - 1

/-- The greatest multiple of `10 ^ k` at or below a magnitude, as a decimal number. -/
def floorAt (b : Binary64) (k : Int) : Scientific where
  digits :=
    b.significand * twoTo b.exponent.toNat * tenTo (-k).toNat /
      (tenTo k.toNat * twoTo (-b.exponent).toNat)
  exponent := k

/--
Of the two multiples of `10 ^ k` around a magnitude, the one that rounds to it; the nearer
one if both do, and the even one of two equally near.
-/
def aroundAt? (b : Binary64) (k : Int) : Option Scientific :=
  let n := Neighbourhood.of b
  let below := floorAt b k
  let above : Scientific := ⟨below.digits + 1, k⟩
  match n.contains below, n.contains above with
  | true, false => some below
  | false, true => some above
  | false, false => none
  | true, true =>
    match compareScaled (2 * below.digits + 1) k (2 * b.significand) b.exponent with
    | .gt => some below
    | .lt => some above
    | .eq => some (if below.digits % 2 = 0 then below else above)

/-- The first decimal that reads back, from `k` downwards; at most `tries` are tried. -/
def firstFrom (b : Binary64) (k : Int) : (tries : Nat) → Scientific
  | 0 => floorAt b k
  | tries + 1 => (aroundAt? b k).getD (firstFrom b (k - 1) tries)

/-- A decimal without zeros at the end of its digits; `fuel` bounds their number. -/
def dropZeros : (fuel : Nat) → Scientific → Scientific
  | 0, d => d
  | fuel + 1, d =>
    if d.digits ≠ 0 ∧ d.digits % 10 = 0 then dropZeros fuel ⟨d.digits / 10, d.exponent + 1⟩
    else d

/-- The shortest decimal that reads back as a positive magnitude. -/
def shortest (b : Binary64) : Scientific := dropZeros 20 (firstFrom b (log10 b) 17)

/-- How a decimal is written out. -/
structure Layout where
  /-- The least exponent of a first digit that is written without an exponent. -/
  leastPlain : Int
  /-- The least exponent above that one which is written with an exponent. -/
  leastLarge : Int

/-- A decimal with a point: plain or, outside the bounds, with a signed exponent. -/
def Layout.write (l : Layout) (d : Scientific) : String :=
  let ds := Nat.toDigits 10 d.digits
  let e := d.exponent + ds.length - 1
  let zeros (n : Nat) := List.replicate n '0'
  String.ofList <|
    if l.leastPlain ≤ e ∧ e < l.leastLarge then
      if e < 0 then ['0', '.'] ++ zeros (-e - 1).toNat ++ ds
      else
        let whole := (e + 1).toNat
        if ds.length ≤ whole then ds ++ zeros (whole - ds.length) ++ ['.', '0']
        else ds.take whole ++ '.' :: ds.drop whole
    else
      let fraction := if ds.length = 1 then [] else '.' :: ds.drop 1
      let sign := if e < 0 then '-' else '+'
      ds.take 1 ++ fraction ++ 'e' :: sign :: Nat.toDigits 10 e.natAbs

/-- A magnitude by its shortest decimal. -/
def Layout.writeBinary (l : Layout) (b : Binary64) : String :=
  if b.significand = 0 then "0.0" else l.write (shortest b)

end DeclAtlas.Decimal
