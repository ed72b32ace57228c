/-!
# Buffers of slots

A buffer is a row of slots, each of which holds an element or nothing yet. Slots are read,
written and copied without any look at what they hold, but only where the buffer has them:
an access to any other slot has no result, and neither has what goes on from there. So a
computation that has a result has stayed inside its buffers.

## Main results

* `isSome_write?_iff`, `isSome_copy?_iff`: an access has a result exactly where all slots
  that it touches are there.
-/

universe u

namespace DeclAtlas

/-- A row of `size` slots. -/
structure Buffer (α : Type u) where
  size : Nat
  /-- What each slot holds; nothing if it was never written. -/
  slot : Nat → Option α

namespace Buffer

variable {α : Type u}

/-- Slots that were never written. -/
def blank (size : Nat) : Buffer α := ⟨size, fun _ => none⟩

/-- The element in slot `i`. -/
def read? (b : Buffer α) (i : Nat) : Option α := if i < b.size then b.slot i else none

/-- Writes `x` into slot `i`. -/
def write? (b : Buffer α) (i : Nat) (x : α) : Option (Buffer α) :=
  if i < b.size then some { b with slot := fun k => if k = i then some x else b.slot k }
  else none

/-- Writes elements into the slots from `i` on, one after another. -/
def writeAll? (b : Buffer α) (i : Nat) : List α → Option (Buffer α)
  | [] => some b
  | x :: xs => do (← b.write? i x).writeAll? (i + 1) xs

/--
Copies `count` slots of `source`, from slot `start` on, to the slots from `i` on. The two may
be one buffer and the slots may overlap: what is copied is what was there before.
-/
def copy? (b : Buffer α) (i : Nat) (source : Buffer α) (start count : Nat) :
    Option (Buffer α) :=
  if start + count ≤ source.size ∧ i + count ≤ b.size then
    some { b with slot := fun k =>
      if i ≤ k ∧ k < i + count then source.slot (start + (k - i)) else b.slot k }
  else none

theorem isSome_write?_iff (b : Buffer α) (i : Nat) (x : α) :
    (b.write? i x).isSome = true ↔ i < b.size := by
  unfold write?
  split <;> simp [*]

theorem isSome_copy?_iff (b source : Buffer α) (i start count : Nat) :
    (b.copy? i source start count).isSome = true ↔
      start + count ≤ source.size ∧ i + count ≤ b.size := by
  unfold copy?
  split <;> simp [*]

end Buffer

end DeclAtlas
