/-!
# Double-precision magnitudes

The magnitude of a finite double is a significand below 2^53 times a power of two. All
arithmetic is exact integer arithmetic followed by one rounding to the nearest double, ties
to the even significand; what is too large for a finite double has no result.

## Main results

* `roundQuotient_mul_add`: rounding a quotient stays within half a unit.
-/

namespace DeclAtlas.Decimal

/-- A power of two. -/
def twoTo (k : Nat) : Nat := Nat.pow 2 k

/-- A power of ten. -/
def tenTo (k : Nat) : Nat := Nat.pow 10 k

/-- The magnitude `significand * 2 ^ exponent`. -/
structure Binary64 where
  significand : Nat
  exponent : Int
deriving DecidableEq

namespace Binary64

/-- The least exponent, that of the smallest magnitudes. -/
def minExponent : Int := -1074

/-- The greatest exponent of a finite double. -/
def maxExponent : Int := 971

/-- The magnitude zero. -/
def zero : Binary64 := ⟨0, minExponent⟩

/-- The integer nearest to `num / den`; halfway between two, the even one. -/
def roundQuotient (num den : Nat) : Nat :=
  let q := num / den
  let r := num % den
  if 2 * r < den then q
  else if den < 2 * r then q + 1
  else if q % 2 = 0 then q else q + 1

/-- Rounding a quotient stays within half a unit. -/
theorem roundQuotient_mul_add (num : Nat) {den : Nat} (h : 0 < den) :
    2 * num ≤ 2 * (roundQuotient num den * den) + den ∧
      2 * (roundQuotient num den * den) ≤ 2 * num + den := by
  have hd := Nat.div_add_mod num den
  have hm := Nat.mod_lt num h
  have hs : (num / den + 1) * den = den * (num / den) + den := by
    rw [Nat.succ_mul, Nat.mul_comm]
  have hq : num / den * den = den * (num / den) := Nat.mul_comm ..
  simp only [roundQuotient]
  repeat' split
  all_goals simp only [hs, hq]; omega

/-- `num / den` as a multiple of `2 ^ e`, numerator and denominator. -/
def scale (num den : Nat) (e : Int) : Nat × Nat :=
  if 0 ≤ e then (num, den * twoTo e.toNat) else (num * twoTo (-e).toNat, den)

/-- The greatest `e` for which `2 ^ e` is at most `num / den`, for `num` and `den` positive. -/
def log2Quotient (num den : Nat) : Int :=
  let e : Int := (Nat.log2 num : Int) - Nat.log2 den
  let (n, d) := scale num den e
  if n < d then e - 1 else e

/-- The double nearest to `num / den * 2 ^ shift`, if it is finite. -/
def round? (num den : Nat) (shift : Int := 0) : Option Binary64 :=
  if num = 0 then some zero
  else
    let e := max minExponent (log2Quotient num den + shift - 52)
    let (n, d) := scale num den (e - shift)
    let m := roundQuotient n d
    let r : Binary64 := if m = twoTo 53 then ⟨twoTo 52, e + 1⟩ else ⟨m, e⟩
    if r.exponent ≤ maxExponent then some r else none

/-- The product of two magnitudes, rounded. -/
def mul? (a b : Binary64) : Option Binary64 :=
  round? (a.significand * b.significand) 1 (a.exponent + b.exponent)

/-- The quotient of two magnitudes, rounded; the divisor is not zero. -/
def div? (a b : Binary64) : Option Binary64 :=
  round? a.significand b.significand (a.exponent - b.exponent)

end Binary64

end DeclAtlas.Decimal
