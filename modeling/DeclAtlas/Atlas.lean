import DeclAtlas.Entity

/-!
# The atlas

A registry keeps one entry for each name it was ever asked to enter, in the order of first
mention, and finds an entry again by that name whatever becomes of the entry itself: the
entries lie in an arena, and an index beside it tells the position of each name. An atlas is
two registries: the structures and the types of one build.

## Main results

* `Registry.find_enter_self`: an entered name is found, under the handle it was given.
* `Registry.find_enter_of_found`: what was found before is found after.
* `Registry.enter_of_found`: entering a known name changes nothing.
-/

universe u v

namespace DeclAtlas

/-- Entries in the order of first mention, with an index of their names. -/
structure Registry (μ : Type u) (α : Type v) where
  arena : Arena μ α
  /-- The position of the entry of each name. -/
  index : List (String × Nat)
  /-- Every name leads to an entry and every entry has a name. -/
  aligned : index.map Prod.snd = List.range arena.size

namespace Registry

variable {μ : Type u} {α : Type v}

/-- No entries. -/
def empty (id : ArenaId) : Registry μ α := ⟨Arena.empty id, [], rfl⟩

/-- How many entries there are. -/
def size (r : Registry μ α) : Nat := r.arena.size

/-- The values in the order of first mention. -/
def values (r : Registry μ α) : List α := r.arena.items

/-- The values with their handles. -/
def toList (r : Registry μ α) : List (Handle μ × α) := r.arena.toList

/-- The handle of the entry with a key, null if there is none. -/
def find (r : Registry μ α) (key : String) : Handle μ :=
  ((r.index.lookup key).bind r.arena.handle?).getD .null

/--
The handle of the entry with a key, whether this call made the entry, and the registry
with it. A new entry holds `fresh`.
-/
def enter (r : Registry μ α) (key : String) (fresh : α) : Handle μ × Bool × Registry μ α :=
  if (r.find key).isNull then
    ((r.arena.push fresh).1, true,
      { arena := (r.arena.push fresh).2
        index := r.index ++ [(key, (r.arena.push fresh).1.index)]
        aligned := by
          rw [List.map_append, r.aligned, Arena.size_push, List.range_succ]
          rfl })
  else (r.find key, false, r)

/-- The value that a handle names. -/
def get? (r : Registry μ α) (h : Handle μ) : Option α := r.arena.get? h

/-- Changes the value that a handle names; its key stays. -/
def modify (r : Registry μ α) (h : Handle μ) (f : α → α) : Registry μ α where
  arena := r.arena.modify h f
  index := r.index
  aligned := by rw [r.aligned, Arena.size_modify]

/-! ## Small lemmas -/

/-- A position in the index is one of an entry. -/
theorem lt_size_of_lookup {r : Registry μ α} {key : String} {i : Nat}
    (h : r.index.lookup key = some i) : i < r.arena.size := by
  obtain ⟨l₁, l₂, hl, -⟩ := List.lookup_eq_some_iff.1 h
  have hmem : i ∈ r.index.map Prod.snd := by
    rw [hl]
    simp
  rw [r.aligned] at hmem
  exact List.mem_range.1 hmem

theorem find_of_lookup {r : Registry μ α} {key : String} {i : Nat}
    (h : r.index.lookup key = some i) : r.find key = .entry r.arena.id i := by
  simp [find, h, Arena.handle?, lt_size_of_lookup h, Arena.handleAt]

theorem isNull_find (r : Registry μ α) (key : String) :
    (r.find key).isNull = (r.index.lookup key).isNone := by
  cases h : r.index.lookup key with
  | none => simp [find, h, Handle.isNull]
  | some i => simp [find_of_lookup h, Handle.isNull]

/-- Entering a known name changes nothing. -/
theorem enter_of_found {r : Registry μ α} {key : String} (h : (r.find key).isNull = false)
    (fresh : α) : r.enter key fresh = (r.find key, false, r) := by
  unfold enter
  rw [h]
  rfl

theorem index_enter_of_null {r : Registry μ α} {key : String}
    (h : (r.find key).isNull = true) (fresh : α) :
    (r.enter key fresh).2.2.index = r.index ++ [(key, r.arena.size)] := by
  unfold enter
  rw [if_pos h]
  rfl

/-- An entered name is found, under the handle it was given. -/
theorem find_enter_self (r : Registry μ α) (key : String) (fresh : α) :
    (r.enter key fresh).2.2.find key = (r.enter key fresh).1 := by
  cases h : (r.find key).isNull with
  | false => rw [enter_of_found h]
  | true =>
    have hnone : r.index.lookup key = none := by
      rw [isNull_find, Option.isNone_iff_eq_none] at h
      exact h
    have hlook : (r.enter key fresh).2.2.index.lookup key = some r.arena.size := by
      rw [index_enter_of_null h, List.lookup_append, hnone]
      simp
    rw [find_of_lookup hlook]
    unfold enter
    rw [if_pos h]
    rfl

/-- What was found before is found after. -/
theorem find_enter_of_found {r : Registry μ α} {k : String} (h : (r.find k).isNull = false)
    (key : String) (fresh : α) : (r.enter key fresh).2.2.find k = r.find k := by
  cases hkey : (r.find key).isNull with
  | false => rw [enter_of_found hkey]
  | true =>
    cases hi : r.index.lookup k with
    | none =>
      rw [isNull_find, hi] at h
      exact nomatch h
    | some i =>
      have hlook : (r.enter key fresh).2.2.index.lookup k = some i := by
        rw [index_enter_of_null hkey, List.lookup_append, hi]
        rfl
      rw [find_of_lookup hlook, find_of_lookup hi]
      unfold enter
      rw [if_pos hkey]
      rfl

end Registry

/-- The structures and types of one build. -/
structure Atlas where
  structures : Registry StructureMark Structure
  types : Registry TypeMark TypeEntry

namespace Atlas

/-- An atlas without entries, known by `id`. -/
def empty (id : ArenaId := ⟨1⟩) : Atlas := ⟨Registry.empty id, Registry.empty id⟩

instance : Inhabited Atlas := ⟨empty⟩

/-- The handle of a structure, null if it was never entered. -/
def findStructure (a : Atlas) (name : String) : StructureHandle := a.structures.find name

/-- The handle of a type, null if it was never entered. -/
def findType (a : Atlas) (name : String) : TypeHandle := a.types.find name

/-- Finds or enters a structure. A new one has its qualified name only. -/
def enterStructure (a : Atlas) (name : String) : StructureHandle × Bool × Atlas :=
  let (h, created, structures) := a.structures.enter name { qualifiedName := name }
  (h, created, { a with structures })

/-- Finds or enters a type. A new one has its qualified name only and is reserved. -/
def enterType (a : Atlas) (name : String) : TypeHandle × Bool × Atlas :=
  let (h, created, types) := a.types.enter name { qualifiedName := name }
  (h, created, { a with types })

/-- The structure that a handle names. -/
def structure? (a : Atlas) (h : StructureHandle) : Option Structure := a.structures.get? h

/-- The type that a handle names. -/
def type? (a : Atlas) (h : TypeHandle) : Option TypeEntry := a.types.get? h

/-- Changes the structure that a handle names. -/
def modifyStructure (a : Atlas) (h : StructureHandle) (f : Structure → Structure) : Atlas :=
  { a with structures := a.structures.modify h f }

/-- Changes the type that a handle names. -/
def modifyType (a : Atlas) (h : TypeHandle) (f : TypeEntry → TypeEntry) : Atlas :=
  { a with types := a.types.modify h f }

end Atlas

end DeclAtlas
