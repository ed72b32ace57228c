/-!
# Character ranges

A Unicode property is a list of closed ranges of code points in ascending order. Looking a
code point up stops at the first range that ends at or above it.
-/

namespace DeclAtlas.Text

/-- Is `n` in one of the ranges? They are closed and in ascending order. -/
def inRanges : List (Nat × Nat) → Nat → Bool
  | [], _ => false
  | (lo, hi) :: rest, n => if n ≤ hi then decide (lo ≤ n) else inRanges rest n

end DeclAtlas.Text
