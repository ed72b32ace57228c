import DeclAtlas.Sequence.Buffer
import DeclAtlas.Word

/-!
# Sequences with inline capacity

A sequence keeps up to `n` elements inside itself and moves to a heap buffer when it
outgrows them. The move is one way: once on the heap, a sequence stays there. Its elements
lie in the first slots of whichever buffer it has; what the slots after them hold is of no
account.

* A push onto a full sequence grows it to the least power of two above its capacity.
* `reserve` grows to the least power of two at or above the request, and never shrinks.
* A removal cuts a heap buffer down to the least power of two at or above the new length,
  when that is less than what it has.
* `shrinkToFit` cuts a heap buffer down to the length.

Capacities are machine words, so powers of two saturate at `maxCapacity`.

An operation without a result has left its buffer. What an operation refuses, by contrast,
it refuses with an error, and leaves behind the sequence as it then is.

## Main results

* `le_powerAtLeast`: the power of two for a number that fits a word is not below it.
-/

universe u

namespace DeclAtlas

/-- Where the elements of a sequence live. -/
inductive Storage (α : Type u) where
  /-- In slots of the sequence itself. -/
  | inline (slot : Nat → Option α)
  /-- In a buffer on the heap. -/
  | heap (buffer : Buffer α)

/-- The first `length` slots of a buffer; `n` slots are there without the heap. -/
structure Sequence (α : Type u) (n : Nat) where
  /-- How many elements there are. -/
  length : Nat := 0
  /-- Where they live. -/
  storage : Storage α := .inline fun _ => none

/-- The greatest capacity a machine word can hold. -/
def maxCapacity : Nat := Word.maxUnsigned 64

/-- The least power of two at or above `k`, or `maxCapacity` where a word holds none. -/
def powerAtLeast (k : Nat) : Nat :=
  if k ≤ 1 then 1
  else if k ≤ Word.count 63 then Word.count (Nat.log2 (k - 1) + 1)
  else maxCapacity

theorem le_powerAtLeast {k : Nat} (h : k ≤ maxCapacity) : k ≤ powerAtLeast k := by
  unfold powerAtLeast; split
  · assumption
  · split
    · rename_i h1 _
      have : k - 1 < Word.count (Nat.log2 (k - 1) + 1) := Nat.lt_log2_self
      omega
    · exact h

namespace Sequence

variable {α : Type u} {n : Nat}

/-- Why an access was refused. -/
inductive Error where
  /-- There is no position `index` in a sequence of this length. -/
  | indexOutOfRange (index length : Nat)
  /-- There is no first or last element; `operation` asked for it. -/
  | empty (operation : String)
  /-- The positions from `start` up to `stop` are no part of a sequence of this length. -/
  | invalidRange (start stop length : Nat)
deriving DecidableEq

/-- The wording of a refusal. -/
def Error.message : Error → String
  | .indexOutOfRange index length =>
    "index " ++ toString index ++ " out of range for length " ++ toString length
  | .empty operation => operation ++ "() called on an empty sequence"
  | .invalidRange start stop length =>
    "range " ++ toString start ++ ".." ++ toString stop ++ " invalid for length " ++
      toString length

/-! ## Slots and room -/

/-- No elements, inline. -/
def empty : Sequence α n := {}

instance : Inhabited (Sequence α n) := ⟨empty⟩

/-- Are there no elements? -/
def isEmpty (s : Sequence α n) : Bool := s.length = 0

/-- How many elements fit before the next move. -/
def capacity (s : Sequence α n) : Nat :=
  match s.storage with
  | .inline _ => n
  | .heap b => b.size

/-- Do the elements still live inline? -/
def isInline (s : Sequence α n) : Bool :=
  match s.storage with
  | .inline _ => true
  | .heap _ => false

/-- The slots the elements live in, wherever these are. -/
def buffer (s : Sequence α n) : Buffer α :=
  match s.storage with
  | .inline slot => ⟨n, slot⟩
  | .heap b => b

/-- The sequence with what its slots hold replaced by what those of `b` hold. -/
def withSlots (s : Sequence α n) (b : Buffer α) : Sequence α n :=
  match s.storage with
  | .inline _ => { s with storage := .inline b.slot }
  | .heap _ => { s with storage := .heap b }

/-- The element at position `i`, if there is one. -/
def get? (s : Sequence α n) (i : Nat) : Option α :=
  if i < s.length then s.buffer.read? i else none

/-- The elements, first to last. -/
def toList? (s : Sequence α n) : Option (List α) := (List.range s.length).mapM s.get?

/-- Moves the elements to a fresh heap buffer of `k` slots. -/
def reallocate (s : Sequence α n) (k : Nat) : Option (Sequence α n) := do
  let b ← (Buffer.blank k).copy? 0 s.buffer 0 s.length
  return { s with storage := .heap b }

/-- Room for one more element than fits now. -/
def growForPush (s : Sequence α n) : Option (Sequence α n) :=
  s.reallocate (powerAtLeast (min (s.capacity + 1) maxCapacity))

/-- Room for one more element than there is. -/
def roomForPush (s : Sequence α n) : Option (Sequence α n) :=
  if s.length = s.capacity then s.growForPush else some s

/-- Grows the room to the least power of two at or above `k`. Never shrinks. -/
def reserve (s : Sequence α n) (k : Nat) : Option (Sequence α n) :=
  if s.capacity < k then s.reallocate (powerAtLeast k) else some s

/-- Cuts a heap buffer down to `target` slots if it has more; inline slots stay. -/
def shrinkTo (s : Sequence α n) (target : Nat) : Option (Sequence α n) :=
  if s.isInline then some s
  else if target < s.capacity then s.reallocate target
  else some s

/-- What every removal does to the room. -/
def shrinkAfterRemoval (s : Sequence α n) : Option (Sequence α n) :=
  s.shrinkTo (powerAtLeast s.length)

/-- Cuts a heap buffer down to exactly the length. -/
def shrinkToFit (s : Sequence α n) : Option (Sequence α n) := s.shrinkTo s.length

/-! ## Adding -/

/-- Adds `x` at the end. -/
def push (s : Sequence α n) (x : α) : Option (Sequence α n) := do
  let s ← s.roomForPush
  let b ← s.buffer.write? s.length x
  return { s.withSlots b with length := s.length + 1 }

/-- Adds elements one by one at the end. -/
def pushAll (s : Sequence α n) : List α → Option (Sequence α n)
  | [] => some s
  | x :: xs => do (← s.push x).pushAll xs

/-- Adds elements of which at least `expected` are promised beforehand. -/
def extend (s : Sequence α n) (expected : Nat) (xs : List α) : Option (Sequence α n) := do
  (← s.reserve (min (s.length + expected) maxCapacity)).pushAll xs

/-- A new sequence of elements of which at least `expected` are promised beforehand. -/
def collect (expected : Nat) (xs : List α) : Option (Sequence α n) := empty.extend expected xs

/-- A sequence of the same elements in fresh room. -/
def copy (s : Sequence α n) : Option (Sequence α n) := do
  let copied ← empty.reserve s.length
  copied.pushAll (← s.toList?)

/-- Puts `x` at position `i` and moves what stood there and after one place on. -/
def insert (s : Sequence α n) (i : Nat) (x : α) :
    Option (Except Error Unit × Sequence α n) :=
  if s.length < i then some (.error (.indexOutOfRange i s.length), s)
  else do
    let s ← s.roomForPush
    let b ← s.buffer.copy? (i + 1) s.buffer i (s.length - i)
    let b ← b.write? i x
    return (.ok (), { s.withSlots b with length := s.length + 1 })

/-- Puts the elements `xs` at position `i` and moves what stood there and after behind them. -/
def insertAll (s : Sequence α n) (i : Nat) (xs : List α) :
    Option (Except Error Unit × Sequence α n) :=
  if s.length < i then some (.error (.indexOutOfRange i s.length), s)
  else do
    let s ← s.reserve (s.length + xs.length)
    let b ← s.buffer.copy? (i + xs.length) s.buffer i (s.length - i)
    let b ← b.writeAll? i xs
    return (.ok (), { s.withSlots b with length := s.length + xs.length })

/-! ## Removing -/

/-- Takes the last element off, if there is one. -/
def pop (s : Sequence α n) : Option (Option α × Sequence α n) :=
  if s.length = 0 then some (none, s)
  else do
    let x ← s.buffer.read? (s.length - 1)
    return (some x, ← shrinkAfterRemoval { s with length := s.length - 1 })

/-- Takes the element at position `i` out and moves what stood after it one place down. -/
def remove (s : Sequence α n) (i : Nat) : Option (Except Error α × Sequence α n) :=
  if s.length ≤ i then some (.error (.indexOutOfRange i s.length), s)
  else do
    let x ← s.buffer.read? i
    let b ← s.buffer.copy? i s.buffer (i + 1) (s.length - i - 1)
    return (.ok x, ← shrinkAfterRemoval { s.withSlots b with length := s.length - 1 })

/-- Takes the elements from `start` up to but not including `stop` out. -/
def removeRange (s : Sequence α n) (start stop : Nat) :
    Option (Except Error Unit × Sequence α n) :=
  if stop < start ∨ s.length < stop then some (.error (.invalidRange start stop s.length), s)
  else do
    let tail := s.length - stop
    let b ← s.buffer.copy? start s.buffer stop tail
    return (.ok (), ← shrinkAfterRemoval { s.withSlots b with length := start + tail })

/-- Takes everything from position `k` on out. -/
def truncate (s : Sequence α n) (k : Nat) : Option (Sequence α n) :=
  if s.length ≤ k then some s else shrinkAfterRemoval { s with length := k }

/-- Takes every element out and keeps the room. -/
def clear (s : Sequence α n) : Sequence α n := { s with length := 0 }

/-- Makes the length `k`, by copies of `x` at the end or by truncation. -/
def resize (s : Sequence α n) (k : Nat) (x : α) : Option (Sequence α n) :=
  if s.length < k then do
    (← s.reserve k).pushAll (List.replicate (k - s.length) x)
  else s.truncate k

/-! ## Reading and writing in place -/

/-- Changes the element at position `i`, if there is one. -/
def modify? (s : Sequence α n) (i : Nat) (f : α → α) : Option (Sequence α n) := do
  return s.withSlots (← s.buffer.write? i (f (← s.get? i)))

/-- The elements rewritten one by one by those of `xs`, as far as both go. -/
def overwrite (s : Sequence α n) (xs : List α) : Option (Sequence α n) := do
  return s.withSlots (← s.buffer.writeAll? 0 (xs.take s.length))

/-- The elements in brackets, each written by `render`. -/
def render (element : α → String) (xs : List α) : String :=
  "[" ++ ", ".intercalate (xs.map element) ++ "]"

/-! ## Exchanging -/

/--
Exchanges contents, given `longer` and `shorter` in that order and not both on the heap:
room is made on the shorter side, what both have in number changes places, the rest of the
longer side moves across, and the side that is now the shorter one is cut to fit.
-/
def exchange (longer shorter : Sequence α n) : Option (Sequence α n × Sequence α n) := do
  let common := shorter.length
  let shorter ← shorter.reserve longer.length
  let a ← longer.buffer.copy? 0 shorter.buffer 0 common
  let b ← shorter.buffer.copy? 0 longer.buffer 0 common
  let b ← b.copy? common a common (longer.length - common)
  return (← shrinkToFit { longer.withSlots a with length := common },
    { shorter.withSlots b with length := longer.length })

/-- Exchanges contents. Two heap buffers change owners; otherwise elements move. -/
def swap (a b : Sequence α n) : Option (Sequence α n × Sequence α n) :=
  if !a.isInline && !b.isInline then some (b, a)
  else if b.length ≤ a.length then exchange a b
  else do
    let (b, a) ← exchange b a
    return (a, b)

end Sequence

end DeclAtlas
