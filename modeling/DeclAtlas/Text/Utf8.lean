/-!
# UTF-8

Text as bytes and back. A byte sequence is read one scalar at a time; where no scalar can
be read, the longest run of bytes that could have begun one is set aside (at least one
byte). A strict reader refuses such a run, a lenient one puts U+FFFD in its place.
-/

namespace DeclAtlas.Text.Utf8

/-- The bytes of a text. -/
def encode (s : String) : List UInt8 := s.toUTF8.toList

/--
How a scalar may continue after its first byte: how many bytes follow, and the range the
first of them must lie in. The narrower ranges keep out overlong forms, surrogates and
everything above U+10FFFF.
-/
def continuation (b : Nat) : Option (Nat × Nat × Nat) :=
  if 0xC2 ≤ b ∧ b ≤ 0xDF then some (1, 0x80, 0xBF)
  else if b = 0xE0 then some (2, 0xA0, 0xBF)
  else if b = 0xED then some (2, 0x80, 0x9F)
  else if 0xE1 ≤ b ∧ b ≤ 0xEF then some (2, 0x80, 0xBF)
  else if b = 0xF0 then some (3, 0x90, 0xBF)
  else if 0xF1 ≤ b ∧ b ≤ 0xF3 then some (3, 0x80, 0xBF)
  else if b = 0xF4 then some (3, 0x80, 0x8F)
  else none

/-- The payload of a first byte that announces `more` further bytes. -/
def leadBits (b more : Nat) : Nat :=
  if more = 1 then b % 0x20 else if more = 2 then b % 0x10 else b % 0x08

/-- Where a reader stands inside a scalar. -/
structure Partial where
  /-- The bits read so far. -/
  bits : Nat
  /-- Bytes still owed, less the next one. -/
  owed : Nat
  /-- The least and greatest byte that may come next. -/
  low : Nat
  high : Nat

/-- A byte read with no scalar under way: what it yields, and the scalar it begins. -/
def begin (b : Nat) : List (Option Char) × Option Partial :=
  if b < 0x80 then ([some (Char.ofNat b)], none)
  else match continuation b with
    | some (more, low, high) => ([], some ⟨leadBits b more, more - 1, low, high⟩)
    | none => ([none], none)

/--
One byte: the characters it completes and the scalar then under way; `none` among the
characters stands for a run of bytes that is no scalar. A byte that does not continue the
scalar under way ends it and is read afresh.
-/
def step : Option Partial → Nat → List (Option Char) × Option Partial
  | none, b => begin b
  | some p, b =>
    if p.low ≤ b ∧ b ≤ p.high then
      let bits := p.bits * 0x40 + b % 0x40
      match p.owed with
      | 0 => ([some (Char.ofNat bits)], none)
      | owed + 1 => ([], some ⟨bits, owed, 0x80, 0xBF⟩)
    else (none :: (begin b).1, (begin b).2)

/--
Reads bytes into characters, with `none` for each run of bytes that is no scalar. `done`
holds what has been read, last character first, so that a long text needs no stack.
-/
def scan (done : List (Option Char)) (pending : Option Partial) :
    List UInt8 → List (Option Char)
  | [] => (if pending.isSome then none :: done else done).reverse
  | byte :: rest =>
    let (chars, pending) := step pending byte.toNat
    scan (chars.reverse ++ done) pending rest

/-- What stands in for bytes that are no scalar. -/
def replacement : Char := Char.ofNat 0xFFFD

/-- The text of well-formed bytes. -/
def decode? (bytes : List UInt8) : Option String :=
  ((scan [] none bytes).mapM id).map String.ofList

/-- The text of any bytes, with U+FFFD for what is no scalar. -/
def decodeLossy (bytes : List UInt8) : String :=
  String.ofList ((scan [] none bytes).map (·.getD replacement))

end DeclAtlas.Text.Utf8
