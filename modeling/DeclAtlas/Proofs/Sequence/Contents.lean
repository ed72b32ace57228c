import DeclAtlas.Proofs.Sequence.Buffer
import DeclAtlas.Proofs.Sequence.Room

/-!
# What a sequence holds

A sequence holds a list when the list's elements lie in its first slots, one after another.
Every operation is described by what it does to that list and to the room around it, which is
all that can be seen of a sequence; and each has a result as long as the length it leads to is
a number of slots that some buffer can have.

## Main results

* `Holds.secures_push`, `Holds.secures_insert`, `Holds.secures_remove` and so on: one for
  each operation.
* `Holds.secures_swap`: two sequences that exchange what they hold.
* `Holds.toList?`: the list is what is read back.
-/

universe u

namespace DeclAtlas

namespace Sequence

variable {α : Type u} {n : Nat} {s t : Sequence α n} {xs ys : List α} {c : Prop}

/-- The room of a sequence. -/
def room (s : Sequence α n) : Room :=
  match s.storage with
  | .inline _ => .inline
  | .heap b => .heap b.size

theorem capacity_eq (s : Sequence α n) : s.capacity = s.room.capacity n := by
  unfold capacity room
  split <;> simp [*, Room.capacity]

theorem size_buffer (s : Sequence α n) : s.buffer.size = s.capacity := by
  unfold buffer capacity
  split <;> simp [*]

theorem isInline_iff (s : Sequence α n) : s.isInline = true ↔ s.room = .inline := by
  unfold isInline room
  split <;> simp [*]

theorem room_withSlots {b : Buffer α} (hb : b.size = s.buffer.size) :
    (s.withSlots b).room = s.room := by
  unfold withSlots room
  unfold buffer at hb
  cases hstored : s.storage with
  | inline slot => rfl
  | heap b₀ =>
    rw [hstored] at hb
    exact congrArg Room.heap hb

theorem buffer_withSlots {b : Buffer α} (hb : b.size = s.buffer.size) :
    (s.withSlots b).buffer = b := by
  unfold withSlots
  unfold buffer at hb
  cases hstored : s.storage with
  | inline slot =>
    rw [hstored] at hb
    exact congrArg (fun k => (⟨k, b.slot⟩ : Buffer α)) hb.symm
  | heap b₀ => rfl

theorem length_withSlots (s : Sequence α n) (b : Buffer α) :
    (s.withSlots b).length = s.length := by
  unfold withSlots
  split <;> rfl

/-! ## Holding a list -/

variable {room room' : Room}

/-- The elements of `xs` lie in the first slots of the sequence, which is what its room is
for. -/
structure Holds (s : Sequence α n) (xs : List α) (room : Room) : Prop where
  length : s.length = xs.length
  lives : s.room = room
  begins : s.buffer.Begins xs

theorem holds_empty : (empty : Sequence α n).Holds [] .inline :=
  ⟨rfl, rfl, Buffer.begins_nil _⟩

namespace Holds

theorem capacity (h : s.Holds xs room) : s.capacity = room.capacity n := by
  rw [capacity_eq, h.lives]

theorem size (h : s.Holds xs room) : s.buffer.size = room.capacity n := by
  rw [size_buffer, h.capacity]

theorem fits (h : s.Holds xs room) : xs.length ≤ room.capacity n := by
  rw [← h.size]
  exact h.begins.fits

theorem isInline_iff (h : s.Holds xs room) : s.isInline = true ↔ room = .inline := by
  rw [Sequence.isInline_iff, h.lives]

/-- Other slots and another length hold another list in the same room. -/
theorem withSlots (h : s.Holds xs room) {b : Buffer α} (hb : b.size = s.buffer.size)
    (hbegins : b.Begins ys) {k : Nat} (hk : k = ys.length) :
    ({ s.withSlots b with length := k } : Sequence α n).Holds ys room where
  length := hk
  lives := (room_withSlots hb).trans h.lives
  begins := by
    have hbuffer : (s.withSlots b).buffer = b := buffer_withSlots hb
    rw [← hbuffer] at hbegins
    exact hbegins

/-- Other slots hold another list of the same length. -/
theorem withSlots_same (h : s.Holds xs room) {b : Buffer α} (hb : b.size = s.buffer.size)
    (hbegins : b.Begins ys) (hlen : ys.length = xs.length) : (s.withSlots b).Holds ys room := by
  have hk : (s.withSlots b).length = ys.length := by
    rw [length_withSlots, h.length, hlen]
  exact h.withSlots hb hbegins hk

/-- Fewer elements of the same slots hold the beginning of the list. -/
theorem take (h : s.Holds xs room) {k : Nat} (hk : k ≤ xs.length) :
    ({ s with length := k } : Sequence α n).Holds (xs.take k) room :=
  ⟨(List.length_take_of_le hk).symm, h.lives, h.begins.take k⟩

/-! ## Reading -/

theorem get? (h : s.Holds xs room) (i : Nat) : s.get? i = xs[i]? := by
  have hfits := h.begins.fits
  unfold Sequence.get? Buffer.read?
  rw [h.length]
  by_cases hi : i < xs.length
  · rw [if_pos hi, if_pos (by omega), h.begins.slot i hi]
  · rw [if_neg hi, List.getElem?_eq_none (Nat.le_of_not_lt hi)]

private theorem mapM_getElem? (xs : List α) :
    (List.range xs.length).mapM (fun i => xs[i]?) = some xs := by
  induction xs with
  | nil => rfl
  | cons x xs ih =>
    rw [List.length_cons, List.range_succ_eq_map, List.mapM_cons, List.mapM_map]
    simp [Function.comp_def, ih]

/-- The list is what is read back. -/
theorem toList? (h : s.Holds xs room) : s.toList? = some xs := by
  unfold Sequence.toList?
  rw [h.length, funext h.get?]
  exact mapM_getElem? xs

end Holds

private theorem mapM_eq_some {f : Nat → Option α} {is : List Nat} {xs : List α}
    (h : is.mapM f = some xs) : is.map f = xs.map some := by
  induction is generalizing xs with
  | nil =>
    obtain rfl := Option.some.inj h
    rfl
  | cons i is ih =>
    rw [List.mapM_cons] at h
    obtain ⟨x, hx, h⟩ := Option.bind_eq_some_iff.1 h
    obtain ⟨rest, hrest, h⟩ := Option.bind_eq_some_iff.1 h
    obtain rfl := Option.some.inj h
    rw [List.map_cons, List.map_cons, hx, ih hrest]

/-- What is read back is what the sequence holds. -/
theorem holds_of_toList? (h : s.toList? = some xs) : s.Holds xs s.room := by
  unfold Sequence.toList? at h
  have hread := mapM_eq_some h
  have hlen : s.length = xs.length := by
    simpa using congrArg List.length hread
  have hslot : ∀ i < xs.length, i < s.buffer.size ∧ s.buffer.slot i = xs[i]? := by
    intro i hi
    have hget : s.get? i = xs[i]? := by
      have hat := congrArg (fun l => l[i]?.join) hread
      simpa [hlen, hi] using hat
    rw [List.getElem?_eq_getElem hi] at hget ⊢
    unfold Sequence.get? Buffer.read? at hget
    rw [if_pos (hlen ▸ hi)] at hget
    split at hget
    · exact ⟨‹_›, hget⟩
    · cases hget
  refine ⟨hlen, rfl, ?_, fun i hi => (hslot i hi).2⟩
  rcases Nat.eq_zero_or_pos xs.length with hzero | hpos
  · omega
  · have hlast := (hslot (xs.length - 1) (by omega)).1
    omega

namespace Holds

/-! ## Room -/

theorem secures_reallocate (h : s.Holds xs room) {k : Nat} (hk : c → xs.length ≤ k) :
    Secures c (s.reallocate k) (·.Holds xs (.heap k)) := by
  unfold reallocate
  rw [h.length]
  refine (h.begins.secures_copy? (b := .blank k) hk).bind ?_
  rintro b ⟨hsize, hbegins⟩
  exact Secures.of_some ⟨rfl, congrArg Room.heap hsize, hbegins⟩

theorem secures_reserve (h : s.Holds xs room) (k : Nat) :
    Secures (xs.length ≤ maxCapacity) (s.reserve k) (·.Holds xs (room.reserve n k)) := by
  have hfits := h.fits
  unfold Sequence.reserve Room.reserve
  rw [h.capacity]
  split
  · exact h.secures_reallocate fun hmax => le_powerAtLeast_of_le (by omega) hmax
  · exact Secures.of_some h

theorem secures_roomForPush (h : s.Holds xs room) :
    Secures (xs.length < maxCapacity) s.roomForPush
      (·.Holds xs (room.forPush n xs.length)) := by
  have hfits := h.fits
  unfold roomForPush growForPush Room.forPush
  rw [h.capacity, h.length]
  split
  · exact h.secures_reallocate fun hmax => le_powerAtLeast_of_le (by omega) (by omega)
  · exact Secures.of_some h

theorem secures_shrinkTo (h : s.Holds xs room) {target : Nat} (ht : c → xs.length ≤ target) :
    Secures c (s.shrinkTo target) (·.Holds xs (room.cut target)) := by
  unfold Sequence.shrinkTo
  cases room with
  | inline =>
    rw [if_pos (h.isInline_iff.2 rfl)]
    exact Secures.of_some h
  | heap k =>
    have hinline : ¬ s.isInline = true := fun hi => nomatch h.isInline_iff.1 hi
    rw [if_neg hinline, h.capacity]
    split
    · rename_i hlt
      have hmin : min target k = target := Nat.min_eq_left (Nat.le_of_lt hlt)
      rw [Room.cut, hmin]
      exact h.secures_reallocate ht
    · rename_i hge
      have hmin : min target k = k := Nat.min_eq_right (Nat.le_of_not_lt hge)
      rw [Room.cut, hmin]
      exact Secures.of_some h

theorem secures_shrinkAfterRemoval (h : s.Holds xs room) :
    Secures (xs.length ≤ maxCapacity) s.shrinkAfterRemoval
      (·.Holds xs (room.cut (powerAtLeast xs.length))) := by
  unfold Sequence.shrinkAfterRemoval
  rw [h.length]
  exact h.secures_shrinkTo fun hmax => le_powerAtLeast hmax

theorem secures_shrinkToFit (h : s.Holds xs room) :
    Secures c s.shrinkToFit (·.Holds xs (room.cut xs.length)) := by
  unfold Sequence.shrinkToFit
  rw [h.length]
  exact h.secures_shrinkTo fun _ => Nat.le_refl _

/-! ## Adding -/

theorem secures_push (h : s.Holds xs room) (x : α) :
    Secures (xs.length < maxCapacity) (s.push x)
      (·.Holds (xs ++ [x]) (room.forPush n xs.length)) := by
  refine h.secures_roomForPush.bind fun s₁ h₁ => ?_
  have hroom : xs.length < maxCapacity → xs.length < s₁.buffer.size := by
    intro hmax
    rw [h₁.size]
    exact Room.lt_capacity_forPush h.fits hmax
  rw [h₁.length]
  refine (h₁.begins.secures_write? (Nat.le_refl xs.length) x hroom).bind ?_
  rintro b ⟨hsize, hbegins⟩
  rw [List.take_length, List.drop_eq_nil_of_le (Nat.le_succ _), List.append_nil] at hbegins
  have hlen : (xs ++ [x]).length = xs.length + 1 := List.length_append
  exact Secures.of_some (h₁.withSlots hsize hbegins hlen.symm)

theorem secures_pushAll (h : s.Holds xs room) (ys : List α) :
    Secures (xs.length + ys.length ≤ maxCapacity) (s.pushAll ys)
      (·.Holds (xs ++ ys) (room.forPushes n xs.length ys.length)) := by
  induction ys generalizing s xs room with
  | nil =>
    refine Secures.of_some ?_
    rwa [List.append_nil]
  | cons y ys ih =>
    refine ((h.secures_push y).of_imp fun hmax => ?_).bind fun s₁ h₁ => ?_
    · rw [List.length_cons] at hmax
      omega
    · have hrest := ih h₁
      rw [List.append_assoc, List.length_append, List.length_singleton] at hrest
      refine hrest.of_imp fun hmax => ?_
      rw [List.length_cons] at hmax
      omega

theorem secures_extend (h : s.Holds xs room) (expected : Nat) (ys : List α) :
    Secures (xs.length + ys.length ≤ maxCapacity) (s.extend expected ys)
      (·.Holds (xs ++ ys) ((room.reserve n (min (xs.length + expected) maxCapacity)).forPushes n
        xs.length ys.length)) := by
  unfold Sequence.extend
  rw [h.length]
  refine ((h.secures_reserve _).of_imp fun hmax => ?_).bind fun s₁ h₁ => h₁.secures_pushAll ys
  omega

theorem secures_copy (h : s.Holds xs room) :
    Secures (xs.length ≤ maxCapacity) s.copy
      (·.Holds xs ((Room.inline.reserve n xs.length).forPushes n 0 xs.length)) := by
  unfold Sequence.copy
  rw [h.length, h.toList?]
  have hempty : Secures (xs.length ≤ maxCapacity) ((empty : Sequence α n).reserve xs.length)
      (·.Holds [] (Room.inline.reserve n xs.length)) :=
    (holds_empty.secures_reserve _).of_imp fun _ => Nat.zero_le _
  refine hempty.bind fun s₁ h₁ => ?_
  have hall := h₁.secures_pushAll xs
  rwa [List.nil_append, List.length_nil, Nat.zero_add] at hall

theorem secures_insert (h : s.Holds xs room) {i : Nat} (hi : i ≤ xs.length) (x : α) :
    Secures (xs.length < maxCapacity) (s.insert i x) fun p =>
      p.1 = .ok () ∧ p.2.Holds (xs.insertIdx i x) (room.forPush n xs.length) := by
  have hnot : ¬ s.length < i := by
    rw [h.length]
    omega
  unfold Sequence.insert
  rw [if_neg hnot]
  refine h.secures_roomForPush.bind fun s₁ h₁ => ?_
  have hroom : xs.length < maxCapacity → xs.length < s₁.buffer.size := by
    intro hmax
    rw [h₁.size]
    exact Room.lt_capacity_forPush h.fits hmax
  rw [h₁.length, ← bind_assoc]
  refine (h₁.begins.secures_open hi x hroom).bind ?_
  rintro b ⟨hsize, hbegins⟩
  have hlen : (xs.insertIdx i x).length = xs.length + 1 := List.length_insertIdx_of_le_length hi x
  exact Secures.of_some ⟨rfl, h₁.withSlots hsize hbegins hlen.symm⟩

theorem secures_insertAll (h : s.Holds xs room) {i : Nat} (hi : i ≤ xs.length) (ys : List α) :
    Secures (xs.length + ys.length ≤ maxCapacity) (s.insertAll i ys) fun p =>
      p.1 = .ok () ∧ p.2.Holds (xs.take i ++ ys ++ xs.drop i)
        (room.reserve n (xs.length + ys.length)) := by
  have hnot : ¬ s.length < i := by
    rw [h.length]
    omega
  unfold Sequence.insertAll
  rw [if_neg hnot, h.length]
  refine ((h.secures_reserve _).of_imp fun hmax => by omega).bind fun s₁ h₁ => ?_
  have hroom : xs.length + ys.length ≤ maxCapacity →
      i + ys.length + (xs.length - i) ≤ s₁.buffer.size := by
    intro hmax
    have hmore := room.le_capacity_reserve (n := n) hmax
    rw [h₁.size]
    omega
  rw [h₁.length, ← bind_assoc]
  refine (h₁.begins.secures_splice (Nat.le_refl i) hi ys hroom).bind ?_
  rintro b ⟨hsize, hbegins⟩
  have hlen : (xs.take i ++ ys ++ xs.drop i).length = xs.length + ys.length := by
    rw [List.length_append, List.length_append, List.length_take, List.length_drop]
    omega
  exact Secures.of_some ⟨rfl, h₁.withSlots hsize hbegins hlen.symm⟩

/-! ## Removing -/

theorem secures_pop (h : s.Holds xs room) :
    Secures (xs.length ≤ maxCapacity + 1) s.pop fun p =>
      p.1 = xs.getLast? ∧ p.2.Holds xs.dropLast
        (if xs = [] then room else room.cut (powerAtLeast (xs.length - 1))) := by
  have hsize := h.begins.fits
  unfold Sequence.pop
  rw [h.length]
  by_cases hnil : xs = []
  · subst hnil
    rw [if_pos List.length_nil, if_pos rfl]
    exact Secures.of_some ⟨rfl, h⟩
  · have hpos : 0 < xs.length := List.length_pos_iff.2 hnil
    rw [if_neg (by omega), if_neg hnil]
    have hlast : xs[xs.length - 1]? = some (xs.getLast hnil) := by
      rw [← List.getLast?_eq_getElem?, List.getLast?_eq_some_getLast hnil]
    refine (Buffer.secures_read? (fun _ => by omega) (h.begins.slot_eq hlast)).bind ?_
    rintro x rfl
    have htake := h.take (Nat.sub_le xs.length 1)
    rw [← List.dropLast_eq_take] at htake
    have hshrink := htake.secures_shrinkAfterRemoval
    rw [List.length_dropLast] at hshrink
    refine (hshrink.of_imp fun hmax => by omega).bind fun s₁ h₁ => ?_
    exact Secures.of_some ⟨(List.getLast?_eq_some_getLast hnil).symm, h₁⟩

theorem secures_remove (h : s.Holds xs room) {i : Nat} {x : α} (hx : xs[i]? = some x) :
    Secures (xs.length ≤ maxCapacity + 1) (s.remove i) fun p =>
      p.1 = .ok x ∧ p.2.Holds (xs.eraseIdx i) (room.cut (powerAtLeast (xs.length - 1))) := by
  have hsize := h.begins.fits
  have hi : i < xs.length := (List.getElem?_eq_some_iff.1 hx).1
  have hnot : ¬ s.length ≤ i := by
    rw [h.length]
    omega
  unfold Sequence.remove
  rw [if_neg hnot, h.length, Nat.sub_sub]
  refine (Buffer.secures_read? (fun _ => by omega) (h.begins.slot_eq hx)).bind ?_
  rintro y rfl
  refine (h.begins.secures_close (Nat.le_succ i) hi).bind ?_
  rintro b ⟨hsize₁, hbegins⟩
  rw [← List.eraseIdx_eq_take_drop_succ] at hbegins
  have hlen : (xs.eraseIdx i).length = xs.length - 1 := List.length_eraseIdx_of_lt hi
  have hshrink := (h.withSlots hsize₁ hbegins hlen.symm).secures_shrinkAfterRemoval
  rw [hlen] at hshrink
  refine (hshrink.of_imp fun hmax => by omega).bind fun s₁ h₁ => ?_
  exact Secures.of_some ⟨rfl, h₁⟩

theorem secures_removeRange (h : s.Holds xs room) {start stop : Nat} (hle : start ≤ stop)
    (hstop : stop ≤ xs.length) :
    Secures (start + (xs.length - stop) ≤ maxCapacity) (s.removeRange start stop) fun p =>
      p.1 = .ok () ∧ p.2.Holds (xs.take start ++ xs.drop stop)
        (room.cut (powerAtLeast (start + (xs.length - stop)))) := by
  have hnot : ¬ (stop < start ∨ s.length < stop) := by
    rw [h.length]
    omega
  unfold Sequence.removeRange
  rw [if_neg hnot, h.length]
  refine (h.begins.secures_close hle hstop).bind ?_
  rintro b ⟨hsize, hbegins⟩
  have hlen : (xs.take start ++ xs.drop stop).length = start + (xs.length - stop) := by
    rw [List.length_append, List.length_take_of_le (Nat.le_trans hle hstop), List.length_drop]
  have hshrink := (h.withSlots hsize hbegins hlen.symm).secures_shrinkAfterRemoval
  rw [hlen] at hshrink
  refine hshrink.bind fun s₁ h₁ => ?_
  exact Secures.of_some ⟨rfl, h₁⟩

theorem secures_truncate (h : s.Holds xs room) (k : Nat) :
    Secures ((xs.take k).length ≤ maxCapacity) (s.truncate k)
      (·.Holds (xs.take k)
        (if xs.length ≤ k then room else room.cut (powerAtLeast (xs.take k).length))) := by
  unfold Sequence.truncate
  rw [h.length]
  split
  · rename_i hle
    rw [List.take_of_length_le hle]
    exact Secures.of_some h
  · exact (h.take (by omega)).secures_shrinkAfterRemoval

theorem clear (h : s.Holds xs room) : s.clear.Holds [] room :=
  h.take (Nat.zero_le _)

theorem secures_resize (h : s.Holds xs room) (k : Nat) (x : α) :
    Secures (k ≤ maxCapacity) (s.resize k x)
      (·.Holds (xs.take k ++ List.replicate (k - xs.length) x)
        (if xs.length < k then (room.reserve n k).forPushes n xs.length (k - xs.length)
        else if xs.length ≤ k then room else room.cut (powerAtLeast (xs.take k).length))) := by
  unfold Sequence.resize
  rw [h.length]
  split
  · rename_i hlt
    refine ((h.secures_reserve k).of_imp fun hmax => by omega).bind fun s₁ h₁ => ?_
    have hall := h₁.secures_pushAll (List.replicate (k - xs.length) x)
    rw [List.length_replicate] at hall
    rw [List.take_of_length_le (Nat.le_of_lt hlt)]
    exact hall.of_imp fun hmax => by omega
  · rename_i hge
    have hzero : k - xs.length = 0 := by omega
    rw [hzero, List.replicate_zero, List.append_nil]
    refine (h.secures_truncate k).of_imp fun hmax => ?_
    rw [List.length_take]
    omega

/-! ## Writing in place -/

theorem secures_modify? (h : s.Holds xs room) {i : Nat} {x : α} (hx : xs[i]? = some x)
    (f : α → α) : Secures c (s.modify? i f) (·.Holds (xs.modify i f) room) := by
  have hsize := h.begins.fits
  obtain ⟨hi, hxi⟩ := List.getElem?_eq_some_iff.1 hx
  unfold Sequence.modify?
  rw [h.get?, hx]
  refine (h.begins.secures_write? (Nat.le_of_lt hi) (f x) fun _ => by omega).bind ?_
  rintro b ⟨hsize₁, hbegins⟩
  have hmodify : xs.modify i f = xs.take i ++ [f x] ++ xs.drop (i + 1) := by
    rw [List.modify_eq_take_cons_drop hi, hxi, List.append_assoc]
    rfl
  rw [← hmodify] at hbegins
  exact Secures.of_some (h.withSlots_same hsize₁ hbegins (List.length_modify ..))

theorem secures_overwrite (h : s.Holds xs room) (ys : List α) :
    Secures c (s.overwrite ys)
      (·.Holds (ys.take xs.length ++ xs.drop ys.length) room) := by
  have hsize := h.begins.fits
  have hwritten : (ys.take xs.length).length = min xs.length ys.length := List.length_take ..
  unfold Sequence.overwrite
  rw [h.length]
  refine (h.begins.secures_writeAll? (Nat.zero_le _) (ys.take xs.length) fun _ => by omega).bind ?_
  rintro b ⟨hsize₁, hbegins⟩
  have hrest : xs.drop (0 + (ys.take xs.length).length) = xs.drop ys.length := by
    rw [hwritten, Nat.zero_add]
    rcases Nat.le_total xs.length ys.length with hle | hle
    · rw [Nat.min_eq_left hle, List.drop_length, List.drop_eq_nil_of_le hle]
    · rw [Nat.min_eq_right hle]
  rw [List.take_zero, List.nil_append, hrest] at hbegins
  have hlen : (ys.take xs.length ++ xs.drop ys.length).length = xs.length := by
    rw [List.length_append, hwritten, List.length_drop]
    omega
  exact Secures.of_some (h.withSlots_same hsize₁ hbegins hlen)

/-! ## Exchanging -/

/-- The exchange of elements puts each list into the room of the other side, with room made
for the longer list and none left over for the shorter one. -/
theorem secures_exchange (hs : s.Holds xs room) (ht : t.Holds ys room')
    (hle : ys.length ≤ xs.length) :
    Secures (xs.length ≤ maxCapacity) (s.exchange t) fun p =>
      p.1.Holds ys (room.cut ys.length) ∧ p.2.Holds xs (room'.reserve n xs.length) := by
  have hsize := hs.begins.fits
  unfold Sequence.exchange
  rw [hs.length, ht.length]
  refine ((ht.secures_reserve xs.length).of_imp fun hmax => by omega).bind fun t₁ ht₁ => ?_
  have hroom := ht₁.begins.fits
  have hmore : xs.length ≤ maxCapacity → xs.length ≤ t₁.buffer.size := by
    intro hmax
    rw [ht₁.size]
    exact room'.le_capacity_reserve hmax
  refine (Buffer.secures_copy? (fun _ => by omega) fun _ => by omega).bind ?_
  rintro a ⟨hsizeA, -, -, hslotA⟩
  refine (Buffer.secures_copy? (fun _ => by omega) fun _ => by omega).bind ?_
  rintro b₁ ⟨hsizeB₁, -, -, hslotB₁⟩
  refine (Buffer.secures_copy? (fun _ => by omega) fun hmax => by
    have := hmore hmax
    omega).bind ?_
  rintro b ⟨hsizeB, -, hout, hslotB⟩
  have hshorter : a.Begins ys := by
    refine ⟨by omega, fun k hk => ?_⟩
    rw [hslotA, if_pos (by omega), Nat.sub_zero, Nat.zero_add, ht₁.begins.slot k hk]
  have hlonger : b.Begins xs := by
    refine ⟨by omega, fun k hk => ?_⟩
    rw [hslotB]
    by_cases hcommon : k < ys.length
    · rw [if_neg (by omega), hslotB₁, if_pos (by omega), Nat.sub_zero, Nat.zero_add,
        hs.begins.slot k hk]
    · have hback : ys.length + (k - ys.length) = k := by omega
      rw [if_pos (by omega), hback, hslotA, if_neg (by omega), hs.begins.slot k hk]
  refine (hs.withSlots hsizeA hshorter rfl).secures_shrinkToFit.bind fun s₂ hs₂ => ?_
  exact Secures.of_some ⟨hs₂, ht₁.withSlots (hsizeB.trans hsizeB₁) hlonger rfl⟩

/-- The rooms of two sequences after they have exchanged what they hold. -/
def swapRooms (n : Nat) (xs ys : List α) (room room' : Room) : Room × Room :=
  match room, room' with
  | .heap c, .heap c' => (.heap c', .heap c)
  | room, room' =>
    if ys.length ≤ xs.length then (room.cut ys.length, room'.reserve n xs.length)
    else (room.reserve n ys.length, room'.cut xs.length)

theorem swapRooms_of_ne_inline (h : room ≠ .inline) (h' : room' ≠ .inline) :
    swapRooms n xs ys room room' = (room', room) := by
  cases room with
  | inline => exact absurd rfl h
  | heap c =>
    cases room' with
    | inline => exact absurd rfl h'
    | heap c' => rfl

theorem swapRooms_of_inline (h : room = .inline ∨ room' = .inline) :
    swapRooms n xs ys room room' =
      if ys.length ≤ xs.length then (room.cut ys.length, room'.reserve n xs.length)
      else (room.reserve n ys.length, room'.cut xs.length) := by
  unfold swapRooms
  split
  · exact absurd h (by simp)
  · rfl

/-- A side on the heap stays there. -/
theorem swapRooms_ne_inline :
    (room ≠ .inline → (swapRooms n xs ys room room').1 ≠ .inline) ∧
      (room' ≠ .inline → (swapRooms n xs ys room room').2 ≠ .inline) := by
  unfold swapRooms
  split
  · exact ⟨fun _ => nofun, fun _ => nofun⟩
  · split
    · exact ⟨Room.cut_ne_inline, Room.reserve_ne_inline⟩
    · exact ⟨Room.reserve_ne_inline, Room.cut_ne_inline⟩

theorem secures_swap (hs : s.Holds xs room) (ht : t.Holds ys room') :
    Secures (xs.length ≤ maxCapacity ∧ ys.length ≤ maxCapacity) (s.swap t) fun p =>
      p.1.Holds ys (swapRooms n xs ys room room').1 ∧
        p.2.Holds xs (swapRooms n xs ys room room').2 := by
  have hrooms : (!s.isInline && !t.isInline) = true ↔ room ≠ .inline ∧ room' ≠ .inline := by
    rw [Bool.and_eq_true, Bool.not_eq_true', Bool.not_eq_true', ne_eq, ne_eq, ← hs.isInline_iff,
      ← ht.isInline_iff, Bool.not_eq_true, Bool.not_eq_true]
  unfold Sequence.swap
  by_cases hmixed : room = .inline ∨ room' = .inline
  · have hnot : ¬(!s.isInline && !t.isInline) = true := fun hc =>
      hmixed.elim (hrooms.1 hc).1 (hrooms.1 hc).2
    rw [if_neg hnot, swapRooms_of_inline hmixed, hs.length, ht.length]
    split
    · rename_i hle
      exact (hs.secures_exchange ht hle).of_imp And.left
    · rename_i hgt
      have hback := ht.secures_exchange hs (Nat.le_of_not_le hgt)
      refine (hback.of_imp And.right).bind fun p hp => ?_
      exact Secures.of_some ⟨hp.2, hp.1⟩
  · obtain ⟨hheap, hheap'⟩ := not_or.1 hmixed
    rw [if_pos (hrooms.2 ⟨hheap, hheap'⟩), swapRooms_of_ne_inline hheap hheap']
    exact Secures.of_some ⟨ht, hs⟩

end Holds

end Sequence

end DeclAtlas
