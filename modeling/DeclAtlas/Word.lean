/-!
# Machine words

The bounds of the words in which counts, places and capacities are kept. Numbers themselves
are unbounded; a bound is named where a number has to fit one of these words.
-/

namespace DeclAtlas.Word

/-- How many words of some bits there are. -/
def count (bits : Nat) : Nat := Nat.pow 2 bits

/-- The greatest unsigned word of some bits. -/
def maxUnsigned (bits : Nat) : Nat := count bits - 1

/-- The greatest signed word of some bits; the least is one farther from zero. -/
def maxSigned (bits : Nat) : Nat := count (bits - 1) - 1

end DeclAtlas.Word
