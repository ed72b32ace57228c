import DeclAtlas.Arena
import DeclAtlas.Sequence.Basic

/-!
# Stores

A store is an arena whose values lie in a sequence: it owns them, names each by its position
and only ever gains more, while the sequence moves them to larger and larger buffers. Handles
speak of positions, so no move disturbs them.

What reads or writes a value asks first whether the handle is one of this store's.
-/

universe u v

namespace DeclAtlas

/-- Values in the order they were put in, under the store's identifier. -/
structure Store (μ : Type u) (α : Type v) where
  id : ArenaId
  /-- How many values fit before the heap is needed. -/
  inlineCapacity : Nat
  items : Sequence α inlineCapacity

namespace Store

variable {μ : Type u} {α : Type v}

/-- A store without values. -/
def empty (inlineCapacity : Nat) (id : ArenaId) : Store μ α := ⟨id, inlineCapacity, .empty⟩

/-- How many values there are. -/
def size (s : Store μ α) : Nat := s.items.length

/-- Puts `x` in, and names it. -/
def push (s : Store μ α) (x : α) : Option (Handle μ × Store μ α) := do
  return (.entry s.id s.size, { s with items := ← s.items.push x })

/-- The handle of the value at position `i`, if there is one. -/
def handle? (s : Store μ α) (i : Nat) : Option (Handle μ) :=
  if i < s.size then some (.entry s.id i) else none

/-- Is the handle one of this store's? -/
def owns (s : Store μ α) (h : Handle μ) : Bool := h.arena? = some s.id

/-- The value that `h` names, if it is one of this store's. -/
def get? (s : Store μ α) (h : Handle μ) : Option α :=
  if s.owns h then s.items.get? h.index else none

/-- Changes the value that `h` names, if it is one of this store's. -/
def modify? (s : Store μ α) (h : Handle μ) (f : α → α) : Option (Store μ α) :=
  if s.owns h then do return { s with items := ← s.items.modify? h.index f } else none

/-- Every value with its handle. -/
def toList? (s : Store μ α) : Option (List (Handle μ × α)) := do
  return (← s.items.toList?).zipIdx.map fun p => (.entry s.id p.2, p.1)

end Store

end DeclAtlas
