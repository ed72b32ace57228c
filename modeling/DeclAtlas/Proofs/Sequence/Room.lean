import DeclAtlas.Sequence.Basic

/-!
# Room

Of where a sequence lives it is only said whether that is inline and, if not, how many slots
there are. Operations make room for more, or cut down what there is of it on the heap; and
nothing that they do leads back from the heap.

## Main results

* `Room.lt_capacity_forPush`, `Room.le_capacity_reserve`: there is the room that was made.
* `Room.reserve_ne_inline`, `Room.forPush_ne_inline`, `Room.cut_ne_inline`: what is on the
  heap stays there.
-/

namespace DeclAtlas

theorem le_powerAtLeast_of_le {k m : Nat} (hm : m ≤ k) (hmax : m ≤ maxCapacity) :
    m ≤ powerAtLeast k := by
  by_cases hk : k ≤ maxCapacity
  · exact Nat.le_trans hm (le_powerAtLeast hk)
  · have hword : Word.count 63 ≤ maxCapacity := by decide
    have hone : (1 : Nat) ≤ maxCapacity := by decide
    unfold powerAtLeast
    rw [if_neg (by omega), if_neg (by omega)]
    exact hmax

/-- Where the elements of a sequence live, without the elements. -/
inductive Room where
  | inline
  | heap (capacity : Nat)
deriving DecidableEq

namespace Room

/-- How many elements fit, if `n` fit inline. -/
def capacity (n : Nat) : Room → Nat
  | inline => n
  | heap c => c

/-- Room for `k` elements. -/
def reserve (n k : Nat) (room : Room) : Room :=
  if room.capacity n < k then heap (powerAtLeast k) else room

/-- Room for one more element than `length`. -/
def forPush (n length : Nat) (room : Room) : Room :=
  if length = room.capacity n then heap (powerAtLeast (min (room.capacity n + 1) maxCapacity))
  else room

/-- Room for more elements, made for one after the other. -/
def forPushes (n length : Nat) (room : Room) : Nat → Room
  | 0 => room
  | count + 1 => (room.forPush n length).forPushes n (length + 1) count

/-- On the heap, no more room than for `target` elements. -/
def cut (target : Nat) : Room → Room
  | inline => inline
  | heap c => heap (min target c)

theorem reserve_of_le {n k : Nat} {room : Room} (h : k ≤ room.capacity n) :
    room.reserve n k = room := by
  unfold reserve
  rw [if_neg (Nat.not_lt.2 h)]

theorem reserve_of_lt {n k : Nat} {room : Room} (h : room.capacity n < k) :
    room.reserve n k = heap (powerAtLeast k) := by
  unfold reserve
  rw [if_pos h]

theorem reserve_ne_inline {n k : Nat} {room : Room} (h : room ≠ inline) :
    room.reserve n k ≠ inline := by
  unfold reserve
  split
  · exact nofun
  · exact h

theorem forPush_ne_inline {n length : Nat} {room : Room} (h : room ≠ inline) :
    room.forPush n length ≠ inline := by
  unfold forPush
  split
  · exact nofun
  · exact h

theorem forPushes_ne_inline {n length count : Nat} {room : Room} (h : room ≠ inline) :
    room.forPushes n length count ≠ inline := by
  induction count generalizing length room with
  | zero => exact h
  | succ count ih => exact ih (forPush_ne_inline h)

theorem cut_ne_inline {target : Nat} {room : Room} (h : room ≠ inline) :
    room.cut target ≠ inline := by
  cases room with
  | inline => exact absurd rfl h
  | heap c => exact nofun

/-- There is room for one more, unless a word can hold no greater capacity. -/
theorem lt_capacity_forPush {n length : Nat} {room : Room}
    (hfit : length ≤ room.capacity n) (hmax : length < maxCapacity) :
    length < (room.forPush n length).capacity n := by
  unfold forPush
  split
  · rename_i hfull
    have hle : length + 1 ≤ powerAtLeast (min (room.capacity n + 1) maxCapacity) :=
      le_powerAtLeast_of_le (by omega) (by omega)
    exact hle
  · omega

/-- There is the room that was reserved, unless a word can hold no such capacity. -/
theorem le_capacity_reserve {n k : Nat} (room : Room) (hmax : k ≤ maxCapacity) :
    k ≤ (room.reserve n k).capacity n := by
  unfold reserve
  split
  · exact le_powerAtLeast hmax
  · omega

end Room

end DeclAtlas
