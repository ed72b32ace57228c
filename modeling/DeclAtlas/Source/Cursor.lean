/-!
# Cursors

A recorded stream with a place in it. Reading on yields the entries one after another in
the order they were recorded, and then nothing for ever; the entry read last is the current
one, until the end has been met. New entries may be recorded at any time.

## Main results

* `next_of_some`, `next_of_le`: what reading on yields and where it leads.
* `current?_next`: the entry just read is the current one.
-/

universe u

namespace DeclAtlas

/-- Recorded entries with a place among them. -/
structure Cursor (ε : Type u) where
  /-- The entries in the order they were recorded. -/
  entries : Array ε := #[]
  /-- How many have been read. -/
  position : Nat := 0
  /-- Where the entry read last stands; nothing before the first and after the last. -/
  current : Option Nat := none

namespace Cursor

variable {ε : Type u}

instance : Inhabited (Cursor ε) := ⟨{}⟩

/-- A cursor before the first of `entries`. -/
def ofArray (entries : Array ε) : Cursor ε := { entries }

/-- How many entries there are. -/
def size (c : Cursor ε) : Nat := c.entries.size

/-- The entries in order. -/
def toList (c : Cursor ε) : List ε := c.entries.toList

/-- Reads the next entry. -/
def next (c : Cursor ε) : Option ε × Cursor ε :=
  match c.entries[c.position]? with
  | some e => (some e, { c with current := some c.position, position := c.position + 1 })
  | none => (none, { c with current := none })

/-- The entry read last. -/
def current? (c : Cursor ε) : Option ε := c.current.bind fun i => c.entries[i]?

/-- The same entries, with the place before the first. -/
def rewind (c : Cursor ε) : Cursor ε := { c with position := 0, current := none }

/-- Records one more entry at the end. -/
def record (c : Cursor ε) (e : ε) : Cursor ε := { c with entries := c.entries.push e }

/-- Changes the entry recorded last. -/
def modifyLast (c : Cursor ε) (f : ε → ε) : Cursor ε :=
  { c with entries := c.entries.modify (c.entries.size - 1) f }

/-! ## Small lemmas -/

theorem next_of_some {c : Cursor ε} {e : ε} (h : c.entries[c.position]? = some e) :
    c.next = (some e, { c with current := some c.position, position := c.position + 1 }) := by
  simp [next, h]

theorem next_of_le {c : Cursor ε} (h : c.size ≤ c.position) :
    c.next = (none, { c with current := none }) := by
  have h' : c.entries.size ≤ c.position := h
  simp [next, Array.getElem?_eq_none h']

@[simp] theorem entries_next (c : Cursor ε) : c.next.2.entries = c.entries := by
  unfold next; split <;> rfl

/-- The entry just read is the current one. -/
theorem current?_next (c : Cursor ε) : c.next.2.current? = c.next.1 := by
  unfold next; split
  · rename_i e h; simpa [current?] using h
  · simp [current?]

end Cursor

end DeclAtlas
