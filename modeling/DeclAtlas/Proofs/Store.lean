import DeclAtlas.Proofs.Sequence.Contents
import DeclAtlas.Store

/-!
# What a store keeps

A store keeps an arena when its sequence holds the arena's values under the arena's
identifier. It then answers as the arena does, whatever the sequence does with its room.

## Main results

* `Keeps.get?`, `Keeps.handle?`, `Keeps.toList?`: the answers are the arena's.
* `Keeps.secures_push`, `Keeps.secures_modify?`: so are the changes.
-/

universe u v

namespace DeclAtlas

namespace Store

variable {μ : Type u} {α : Type v} {c : Prop} {s : Store μ α} {a : Arena μ α} {h : Handle μ}

theorem handle?_eq_some_iff (s : Store μ α) (i : Nat) (h : Handle μ) :
    s.handle? i = some h ↔ i < s.size ∧ h = .entry s.id i := by
  unfold handle?
  by_cases hi : i < s.size
  · simp [hi, eq_comm]
  · simp [hi]

/-- A handle that leads anywhere is the store's own. -/
theorem arena?_of_get? {x : α} (hx : s.get? h = some x) : h.arena? = some s.id := by
  unfold get? owns at hx
  split at hx
  · rename_i howns
    exact of_decide_eq_true howns
  · exact nomatch hx

/-! ## A store keeps an arena -/

/-- The sequence of the store holds the values of the arena, under the same identifier. -/
structure Keeps (s : Store μ α) (a : Arena μ α) : Prop where
  id : s.id = a.id
  items : ∃ room, s.items.Holds a.items room

theorem keeps_empty (n : Nat) (id : ArenaId) : (empty n id : Store μ α).Keeps (.empty id) :=
  ⟨rfl, .inline, Sequence.holds_empty⟩

namespace Keeps

theorem size (hs : s.Keeps a) : s.size = a.size := by
  obtain ⟨room, hitems⟩ := hs.items
  exact hitems.length

theorem handle? (hs : s.Keeps a) (i : Nat) : s.handle? i = a.handle? i := by
  unfold Store.handle? Arena.handle? Arena.handleAt
  rw [hs.size, hs.id]

theorem get? (hs : s.Keeps a) (h : Handle μ) : s.get? h = a.get? h := by
  obtain ⟨room, hitems⟩ := hs.items
  unfold Store.get? owns
  cases h with
  | null => rfl
  | entry id i =>
    rw [hs.id, hitems.get?]
    simp [Handle.arena?, Handle.index, Arena.get?]

/-- Every handle that the store gives out leads to a value. -/
theorem get?_of_handle? (hs : s.Keeps a) {i : Nat} (hh : s.handle? i = some h) :
    ∃ x, s.get? h = some x := by
  obtain ⟨hi, rfl⟩ := (handle?_eq_some_iff s i h).1 hh
  rw [hs.size] at hi
  rw [hs.get?, hs.id, Arena.get?, if_pos rfl]
  exact ⟨_, List.getElem?_eq_getElem hi⟩

theorem toList? (hs : s.Keeps a) : s.toList? = some a.toList := by
  obtain ⟨room, hitems⟩ := hs.items
  unfold Store.toList? Arena.toList Arena.handleAt
  rw [hitems.toList?, hs.id]
  rfl

theorem secures_push (hs : s.Keeps a) (x : α) :
    Secures (a.size < maxCapacity) (s.push x) fun p =>
      p.1 = (a.push x).1 ∧ p.2.Keeps (a.push x).2 := by
  obtain ⟨room, hitems⟩ := hs.items
  refine (hitems.secures_push x).bind fun items hitems' => ?_
  refine Secures.of_some ⟨?_, hs.id, _, hitems'⟩
  rw [hs.id, hs.size]
  rfl

/-- A pushed value is what its handle leads to. -/
theorem get?_of_push (hs : s.Keeps a) {s' : Store μ α} {x : α} (hpush : s.push x = some (h, s')) :
    s'.handle? s.size = some h ∧ s'.get? h = some x := by
  obtain ⟨hh, hkeeps⟩ := (hs.secures_push x).sound _ hpush
  have hh : h = (a.push x).1 := hh
  constructor
  · rw [hkeeps.handle?, hs.size, hh]
    unfold Arena.handle?
    rw [Arena.size_push, if_pos (Nat.lt_succ_self _)]
    rfl
  · rw [hkeeps.get?, hh]
    exact a.get?_push_self x

theorem secures_modify? (hs : s.Keeps a) {x : α} (hx : a.get? h = some x) (f : α → α) :
    Secures c (s.modify? h f) (·.Keeps (a.modify h f)) := by
  obtain ⟨room, hitems⟩ := hs.items
  cases h with
  | null => exact nomatch hx
  | entry id i =>
    by_cases hid : id = a.id
    · subst hid
      have hx' : a.items[i]? = some x := by simpa [Arena.get?] using hx
      have howns : s.owns (.entry a.id i) = true := by simp [owns, Handle.arena?, hs.id]
      unfold Store.modify?
      rw [if_pos howns]
      refine (hitems.secures_modify? hx' f).bind fun items hitems' => ?_
      refine Secures.of_some ⟨?_, room, ?_⟩
      · rw [Arena.id_modify]
        exact hs.id
      · simpa [Arena.modify] using hitems'
    · simp [Arena.get?, hid] at hx

end Keeps

end Store

end DeclAtlas
