import DeclAtlas.Word

/-!
# Arenas and handles

An arena owns values and only ever gains more. A handle names one of them by the arena and
the position it was put at, so it stays good however the arena grows, and no other arena
answers to it. The null handle names nothing.

Arenas are told apart by identifiers, which a supply hands out one after another. A mark
tells what a handle is for, so that handles for different ends cannot be confused.

## Main results

* `get?_push_self`, `get?_push_of_get?`: a pushed value answers to its handle, then and
  after every later push.
* `get?_of_ne`: a handle of one arena finds nothing in another.
* `get?_modify_self`, `get?_modify_of_ne`: a write reaches the value of its handle only.
-/

universe u v

namespace DeclAtlas

/-- What an arena is known by. -/
structure ArenaId where
  number : Nat
deriving DecidableEq, Inhabited

/-- A counter from which identifiers are handed out. -/
structure ArenaSupply where
  next : Nat := 1
deriving DecidableEq

/--
A fresh identifier, and the supply without it. Identifiers are machine words other than 0: the
supply starts over once it has handed out all of them.
-/
def ArenaSupply.fresh (s : ArenaSupply) : ArenaId × ArenaSupply :=
  (⟨if s.next = 0 then 1 else s.next⟩, ⟨(s.next + 1) % Word.count 64⟩)

/-- A name for a value in some arena of mark `μ`, or for nothing. -/
inductive Handle (μ : Type u) where
  /-- Names nothing. -/
  | null
  /-- Names the value at position `index` of `arena`. -/
  | entry (arena : ArenaId) (index : Nat)

namespace Handle

variable {μ : Type u}

/-- Handles can be compared whatever they are marked with. -/
instance : DecidableEq (Handle μ)
  | null, null => isTrue rfl
  | null, entry .. => isFalse nofun
  | entry .., null => isFalse nofun
  | entry a i, entry b j =>
    if h : a = b ∧ i = j then isTrue (by rw [h.1, h.2])
    else isFalse fun e => h (by cases e; exact ⟨rfl, rfl⟩)

instance : Inhabited (Handle μ) := ⟨null⟩

/-- Does the handle name nothing? -/
def isNull : Handle μ → Bool
  | null => true
  | entry .. => false

/-- The position, 0 for the null handle. -/
def index : Handle μ → Nat
  | null => 0
  | entry _ i => i

/-- The position, absent for the null handle. -/
def index? : Handle μ → Option Nat
  | null => none
  | entry _ i => some i

/-- The arena, absent for the null handle. -/
def arena? : Handle μ → Option ArenaId
  | null => none
  | entry a _ => some a

/-- A handle as a reader sees it. -/
def render : Handle μ → String
  | null => "Handle(null)"
  | entry a i => "Handle(" ++ toString a.number ++ "#" ++ toString i ++ ")"

end Handle

/-- Values in the order they were put in, under the arena's identifier. -/
structure Arena (μ : Type u) (α : Type v) where
  id : ArenaId
  items : List α := []

namespace Arena

variable {μ : Type u} {α : Type v}

/-- An arena without values. -/
def empty (id : ArenaId) : Arena μ α := { id }

instance : Inhabited (Arena μ α) := ⟨empty ⟨1⟩⟩

/-- How many values there are. -/
def size (a : Arena μ α) : Nat := a.items.length

/-- The handle of position `i`, good once there is a value there. -/
def handleAt (a : Arena μ α) (i : Nat) : Handle μ := .entry a.id i

/-- Puts `x` in, and names it. -/
def push (a : Arena μ α) (x : α) : Handle μ × Arena μ α :=
  (a.handleAt a.size, { a with items := a.items ++ [x] })

/-- The handle of the value at position `i`, if there is one. -/
def handle? (a : Arena μ α) (i : Nat) : Option (Handle μ) :=
  if i < a.size then some (a.handleAt i) else none

/-- The value that `h` names, if it is one of this arena's. -/
def get? (a : Arena μ α) (h : Handle μ) : Option α :=
  match h with
  | .null => none
  | .entry id i => if id = a.id then a.items[i]? else none

/-- Changes the value that `h` names by `f`; nothing happens if it names none here. -/
def modify (a : Arena μ α) (h : Handle μ) (f : α → α) : Arena μ α :=
  match h with
  | .null => a
  | .entry id i => if id = a.id then { a with items := a.items.modify i f } else a

/-- Every value with its handle. -/
def toList (a : Arena μ α) : List (Handle μ × α) :=
  a.items.zipIdx.map fun p => (a.handleAt p.2, p.1)

/-! ## Reading after writing -/

@[simp] theorem get?_null (a : Arena μ α) : a.get? .null = none := rfl

@[simp] theorem id_push (a : Arena μ α) (x : α) : (a.push x).2.id = a.id := rfl

@[simp] theorem size_push (a : Arena μ α) (x : α) : (a.push x).2.size = a.size + 1 := by
  simp [push, size]

@[simp] theorem id_modify (a : Arena μ α) (h : Handle μ) (f : α → α) :
    (a.modify h f).id = a.id := by
  unfold modify; split
  · rfl
  · split <;> rfl

@[simp] theorem size_modify (a : Arena μ α) (h : Handle μ) (f : α → α) :
    (a.modify h f).size = a.size := by
  unfold modify; split
  · rfl
  · split <;> simp [size]

/-- A pushed value answers to its handle. -/
@[simp] theorem get?_push_self (a : Arena μ α) (x : α) :
    (a.push x).2.get? (a.push x).1 = some x := by
  simp [push, get?, handleAt, size]

/-- What a handle names, it names after every push. -/
theorem get?_push_of_get? {a : Arena μ α} {h : Handle μ} {y : α} (x : α)
    (hy : a.get? h = some y) : (a.push x).2.get? h = some y := by
  cases h with
  | null => simp at hy
  | entry id i =>
    simp only [get?] at hy
    split at hy
    · rename_i hid
      have hi := (List.getElem?_eq_some_iff.1 hy).1
      simp [get?, hid, push, List.getElem?_append_left hi, hy]
    · simp at hy

/-- A handle of one arena finds nothing in another. -/
theorem get?_of_ne {a : Arena μ α} {h : Handle μ} (hne : h.arena? ≠ some a.id) :
    a.get? h = none := by
  cases h with
  | null => rfl
  | entry id i =>
    have : id ≠ a.id := fun e => hne (by simp [Handle.arena?, e])
    simp [get?, this]

/-- A write reaches the value of its handle. -/
theorem get?_modify_self (a : Arena μ α) (h : Handle μ) (f : α → α) :
    (a.modify h f).get? h = (a.get? h).map f := by
  cases h with
  | null => rfl
  | entry id i => by_cases hid : id = a.id <;> simp [modify, get?, hid]

/-- A write reaches no other value. -/
theorem get?_modify_of_ne {a : Arena μ α} {h h' : Handle μ} (f : α → α) (hne : h ≠ h') :
    (a.modify h f).get? h' = a.get? h' := by
  cases h with
  | null => rfl
  | entry id i =>
    cases h' with
    | null => rfl
    | entry id' i' =>
      by_cases hid : id = a.id
      · by_cases hid' : id' = a.id
        · have : i ≠ i' := fun e => hne (by rw [hid, hid', e])
          simp [modify, get?, hid, hid', this]
        · simp [modify, get?, hid, hid']
      · simp [modify, hid]

end Arena

end DeclAtlas
