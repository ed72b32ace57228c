import DeclAtlas.Proofs.Sequence.Contents

/-!
# Exchanging contents

Two sequences can trade what they hold wherever they live. Two heap buffers change owners;
in every other case the elements move, room is made for the longer list on the side it moves
to, and no side comes back from the heap. What each side has afterwards is said from that
side alone, since it is the same for both.

## Main results

* `exists_swap`: an exchange has a result, in which each side has taken what the other held.
* `swap_exchanges`: a second exchange takes both back.
-/

universe u

namespace DeclAtlas.Sequence

variable {α : Type u} {n : Nat} {s t s' t' : Sequence α n} {xs ys : List α}
  {room room' room₁ : Room}

/-- The sequence `s'` is what `s` has become by taking `ys` over from `t`. -/
structure Takes (s' s t : Sequence α n) (ys : List α) : Prop where
  contents : s'.toList? = some ys
  fits : s'.length ≤ s'.capacity
  /-- What was on the heap is there still. -/
  heap : s.isInline = false → s'.isInline = false
  /-- What was inline is on the heap only if it had to go there. -/
  spills : s.isInline = true → (s'.isInline = true ↔ ys.length ≤ n)
  inline : s'.isInline = true → s'.capacity = n
  /-- Two buffers on the heap changed owners as they were. -/
  buffers : s.isInline = false → t.isInline = false → s'.capacity = t.capacity

/-- What becomes of the room of one side when it takes `ys` over from room `room'`. -/
structure TakesRoom (n : Nat) (ys : List α) (room room' room₁ : Room) : Prop where
  heap : room ≠ .inline → room₁ ≠ .inline
  spills : room = .inline → room₁ = Room.inline.reserve n ys.length
  buffers : room ≠ .inline → room' ≠ .inline → room₁ = room'

theorem reserve_inline_eq_iff (n k : Nat) : Room.inline.reserve n k = .inline ↔ k ≤ n := by
  rcases Nat.lt_or_ge n k with hlt | hge
  · rw [Room.reserve_of_lt (show Room.inline.capacity n < k from hlt)]
    exact ⟨nofun, fun hle => by omega⟩
  · rw [Room.reserve_of_le (show k ≤ Room.inline.capacity n from hge)]
    exact ⟨fun _ => hge, fun _ => rfl⟩

theorem Holds.isInline_eq_false_iff (h : s.Holds xs room) :
    s.isInline = false ↔ room ≠ .inline := by
  rw [ne_eq, ← h.isInline_iff, Bool.not_eq_true]

theorem Holds.takes (h' : s'.Holds ys room₁) (hs : s.Holds xs room) (ht : t.Holds ys room')
    (hroom : TakesRoom n ys room room' room₁) : s'.Takes s t ys where
  contents := h'.toList?
  fits := by
    rw [h'.length, h'.capacity]
    exact h'.fits
  heap hout := h'.isInline_eq_false_iff.2 (hroom.heap (hs.isInline_eq_false_iff.1 hout))
  spills hin := by
    rw [h'.isInline_iff, hroom.spills (hs.isInline_iff.1 hin)]
    exact reserve_inline_eq_iff n ys.length
  inline hin := by
    rw [h'.capacity, h'.isInline_iff.1 hin]
    rfl
  buffers hout hout' := by
    rw [h'.capacity, ht.capacity,
      hroom.buffers (hs.isInline_eq_false_iff.1 hout) (ht.isInline_eq_false_iff.1 hout')]

/-- Both sides of an exchange fare alike, whichever of them is the longer one. -/
theorem takesRoom_swapRooms (hfit : xs.length ≤ room.capacity n)
    (hfit' : ys.length ≤ room'.capacity n) :
    TakesRoom n ys room room' (Holds.swapRooms n xs ys room room').1 ∧
      TakesRoom n xs room' room (Holds.swapRooms n xs ys room room').2 := by
  -- The side that is cut stays inline, and has had the room before.
  have hcut : ∀ {k : Nat}, k ≤ n → Room.inline.cut k = Room.inline.reserve n k := fun hk =>
    ((reserve_inline_eq_iff n _).2 hk).symm
  refine ⟨⟨Holds.swapRooms_ne_inline.1, ?_, fun h h' => ?_⟩,
    ⟨Holds.swapRooms_ne_inline.2, ?_, fun h' h => ?_⟩⟩
  · rintro rfl
    rw [Holds.swapRooms_of_inline (Or.inl rfl)]
    split
    · exact hcut (Nat.le_trans ‹_› hfit)
    · rfl
  · rw [Holds.swapRooms_of_ne_inline h h']
  · rintro rfl
    rw [Holds.swapRooms_of_inline (Or.inr rfl)]
    split
    · rfl
    · exact hcut (Nat.le_trans (Nat.le_of_not_le ‹_›) hfit')
  · rw [Holds.swapRooms_of_ne_inline h h']

/-- Each side takes what the other held, if the lengths fit a word. -/
theorem exists_swap (hs : s.toList? = some xs) (ht : t.toList? = some ys)
    (hmax : xs.length ≤ maxCapacity ∧ ys.length ≤ maxCapacity) :
    ∃ s' t', s.swap t = some (s', t') ∧ s'.Takes s t ys ∧ t'.Takes t s xs := by
  have hs := holds_of_toList? hs
  have ht := holds_of_toList? ht
  obtain ⟨⟨s', t'⟩, hswap, hs', ht'⟩ := (hs.secures_swap ht).exists_eq hmax
  obtain ⟨hroom, hroom'⟩ := takesRoom_swapRooms hs.fits ht.fits
  exact ⟨s', t', hswap, hs'.takes hs ht hroom, ht'.takes ht hs hroom'⟩

/-- Two sequences exchange what they hold, wherever they live and however long they are, and
exchanging again takes both back. -/
theorem swap_exchanges (hs : s.toList? = some xs) (ht : t.toList? = some ys)
    (hmax : xs.length ≤ maxCapacity ∧ ys.length ≤ maxCapacity) :
    ∃ s' t', s.swap t = some (s', t') ∧ s'.Takes s t ys ∧ t'.Takes t s xs ∧
      ∃ s'' t'', s'.swap t' = some (s'', t'') ∧ s''.Takes s' t' xs ∧ t''.Takes t' s' ys := by
  obtain ⟨s', t', hswap, hs', ht'⟩ := exists_swap hs ht hmax
  obtain ⟨s'', t'', hback, hs'', ht''⟩ := exists_swap hs'.contents ht'.contents hmax.symm
  exact ⟨s', t', hswap, hs', ht', s'', t'', hback, hs'', ht''⟩

/-- An inline sequence and one on the heap that is longer than what fits inline. -/
theorem swap_exchanges_mixed :
    ∃ s t : Sequence Nat 2, s.toList? = some [1] ∧ s.isInline = true ∧
      t.toList? = some [2, 3, 4] ∧ t.isInline = false ∧
      ([1].length ≤ maxCapacity ∧ [2, 3, 4].length ≤ maxCapacity) ∧
      ∃ s' t', s.swap t = some (s', t') ∧ s'.Takes s t [2, 3, 4] ∧ t'.Takes t s [1] ∧
        ∃ s'' t'', s'.swap t' = some (s'', t'') ∧ s''.Takes s' t' [1] ∧
          t''.Takes t' s' [2, 3, 4] := by
  have hmax : [1].length ≤ maxCapacity ∧ [2, 3, 4].length ≤ maxCapacity := by decide
  let s : Sequence Nat 2 := (collect 0 [1]).getD empty
  let t : Sequence Nat 2 := (collect 0 [2, 3, 4]).getD empty
  have hs : s.toList? = some [1] := by decide
  have ht : t.toList? = some [2, 3, 4] := by decide
  exact ⟨s, t, hs, by decide, ht, by decide, hmax, swap_exchanges hs ht hmax⟩

end DeclAtlas.Sequence
