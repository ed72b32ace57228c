import DeclAtlas.Proofs.Sequence.Growth
import DeclAtlas.Proofs.Sequence.Histories

/-!
# Room after removals

Whatever takes elements out of a sequence gives room back: on the heap there is never more
left than the least power of two that the remaining elements fit, and less than that only
where there was less before. So a sequence that has once been long does not stay large. An
operation that takes nothing out leaves the room alone, and so does `clear`, which is meant
to keep it.

How much room there can be at all is bounded too. Every buffer that an operation makes has
slots that a word can count, so a removal from a sequence that a history has led to always
finds the smaller buffer it asks for.

## Main results

* `powerAtLeast_lt_two_mul`: a power of two at or above a number is less than twice as much.
* `capacity_roomsFrom_le`: no history leads to more room than a word can count.
* `removal_boundsRoom`: what removals, and what all other operations, leave of the room.
-/

universe u

namespace DeclAtlas

/-! ## How far powers of two go -/

theorem powerAtLeast_le (k : Nat) : powerAtLeast k ≤ maxCapacity := by
  rcases Nat.lt_or_ge (Word.count 63) k with hk | hk
  · exact Nat.le_of_eq (powerAtLeast_of_lt hk)
  · exact (isLeast_powerAtLeast hk).1.2.1

/-- The power of two above a number is less than twice that number, and so is the greatest
capacity where there is no such power. -/
theorem powerAtLeast_lt_two_mul {k : Nat} (hk : 0 < k) : powerAtLeast k < 2 * k := by
  rcases Nat.lt_or_ge (Word.count 63) k with hbig | hsmall
  · have hlast : maxCapacity < 2 * Word.count 63 := by decide
    rw [powerAtLeast_of_lt hbig]
    omega
  · unfold powerAtLeast
    by_cases hone : k ≤ 1
    · rw [if_pos hone]
      omega
    · have hpred : Word.count (Nat.log2 (k - 1)) ≤ k - 1 := Nat.log2_self_le (by omega)
      have hnext : Word.count (Nat.log2 (k - 1) + 1) = Word.count (Nat.log2 (k - 1)) * 2 :=
        Nat.pow_succ ..
      rw [if_neg hone, if_pos hsmall, hnext]
      omega

/-! ## How much room there can be -/

namespace Room

variable {n k length count : Nat} {room : Room}

theorem capacity_reserve_le (h : room.capacity n ≤ maxCapacity) :
    (room.reserve n k).capacity n ≤ maxCapacity := by
  unfold reserve
  split
  · exact powerAtLeast_le k
  · exact h

theorem capacity_forPush_le (h : room.capacity n ≤ maxCapacity) :
    (room.forPush n length).capacity n ≤ maxCapacity := by
  unfold forPush
  split
  · exact powerAtLeast_le _
  · exact h

theorem capacity_forPushes_le (h : room.capacity n ≤ maxCapacity) :
    (room.forPushes n length count).capacity n ≤ maxCapacity := by
  induction count generalizing length room with
  | zero => exact h
  | succ count ih => exact ih (capacity_forPush_le h)

theorem capacity_cut_le (h : room.capacity n ≤ maxCapacity) :
    (room.cut k).capacity n ≤ maxCapacity := by
  cases room with
  | inline => exact h
  | heap c => exact Nat.le_trans (Nat.min_le_right k c) h

end Room

namespace Sequence

variable {α : Type u} {n : Nat} {ρ : Type} {s s' : Sequence α n} {xs : List α} {room : Room}
  {lists : ρ → List α} {rooms : ρ → Room}

theorem Edit.capacity_onRoom_le (e : Edit α) (h : room.capacity n ≤ maxCapacity) :
    (e.onRoom n xs room).capacity n ≤ maxCapacity := by
  unfold onRoom
  split
  · exact h
  · cases e with
    | push | pushThen | insert => exact Room.capacity_forPush_le h
    | insertAll | reserve => exact Room.capacity_reserve_le h
    | remove | removeRange | shrinkToFit => exact Room.capacity_cut_le h
    | extend => exact Room.capacity_forPushes_le (Room.capacity_reserve_le h)
    | clear | read | change | front | back | changeBack | overwrite => exact h
    | pop | truncate =>
      simp only [effectOnRoom]
      split
      · exact h
      · exact Room.capacity_cut_le h
    | resize =>
      simp only [effectOnRoom]
      split
      · exact Room.capacity_forPushes_le (Room.capacity_reserve_le h)
      · split
        · exact h
        · exact Room.capacity_cut_le h

theorem Holds.capacity_swapRooms_le (xs ys : List α) {room' : Room}
    (h : room.capacity n ≤ maxCapacity) (h' : room'.capacity n ≤ maxCapacity) :
    (swapRooms n xs ys room room').1.capacity n ≤ maxCapacity ∧
      (swapRooms n xs ys room room').2.capacity n ≤ maxCapacity := by
  unfold swapRooms
  split
  · exact ⟨h', h⟩
  · split
    · exact ⟨Room.capacity_cut_le h, Room.capacity_reserve_le h'⟩
    · exact ⟨Room.capacity_reserve_le h, Room.capacity_cut_le h'⟩

variable [DecidableEq ρ]

theorem capacity_update_le (h : ∀ r, (rooms r).capacity n ≤ maxCapacity) (r : ρ)
    (hroom : room.capacity n ≤ maxCapacity) (k : ρ) :
    (Function.update rooms r room k).capacity n ≤ maxCapacity := by
  by_cases hk : k = r
  · subst hk
    rwa [Function.update_self]
  · rw [Function.update_of_ne hk]
    exact h k

theorem Step.capacity_onRooms_le (hn : n ≤ maxCapacity) (st : Step ρ α)
    (h : ∀ r, (rooms r).capacity n ≤ maxCapacity) (k : ρ) :
    (st.onRooms n lists rooms k).capacity n ≤ maxCapacity := by
  have hinline : Room.inline.capacity n ≤ maxCapacity := hn
  have hfresh : ∀ m count, ((Room.inline.reserve n m).forPushes n 0 count).capacity n ≤
      maxCapacity := fun _ _ => Room.capacity_forPushes_le (Room.capacity_reserve_le hinline)
  cases st with
  | edit r e => exact capacity_update_le h r (e.capacity_onRoom_le (h r)) k
  | swap r q hne =>
    obtain ⟨hr, hq⟩ := Holds.capacity_swapRooms_le (lists r) (lists q) (h r) (h q)
    exact capacity_update_le (capacity_update_le h r hr) q hq k
  | clone r q => exact capacity_update_le h q (hfresh _ _) k
  | collect r expected xs => exact capacity_update_le h r (hfresh _ _) k

/-- No history leads to more room than a word can count. -/
theorem capacity_roomsFrom_le (hn : n ≤ maxCapacity) (steps : List (Step ρ α))
    (h : ∀ r, (rooms r).capacity n ≤ maxCapacity) (r : ρ) :
    (roomsFrom n lists rooms steps r).capacity n ≤ maxCapacity := by
  induction steps generalizing lists rooms with
  | nil => exact h r
  | cons st steps ih => exact ih (st.capacity_onRooms_le hn h)

/-! ## What removals leave -/

/-- Does the operation take elements out of a sequence of this length? A range that is there
but empty counts as taken out. -/
def Edit.Removes (length : Nat) : Edit α → Prop
  | .pop => 0 < length
  | .remove i => i < length
  | .removeRange start stop => start ≤ stop ∧ stop ≤ length
  | .truncate k | .resize k _ => k < length
  | .push _ | .pushThen .. | .insert .. | .insertAll .. | .clear | .read _ | .change .. | .front
  | .back | .changeBack _ | .reserve _ | .shrinkToFit | .extend .. | .overwrite _ => False

/-- Does the operation have no business with the room of a sequence of this length? It reads
or writes elements in place, clears, cuts to a length that is not exceeded, or is refused. -/
def Edit.Spares (length : Nat) : Edit α → Prop
  | .pop => length = 0
  | .insert i _ | .insertAll i _ => length < i
  | .remove i => length ≤ i
  | .removeRange start stop => stop < start ∨ length < stop
  | .truncate k => length ≤ k
  | .resize k _ => k = length
  | .clear | .read _ | .change .. | .front | .back | .changeBack _ | .overwrite _ => True
  | .push _ | .pushThen .. | .reserve _ | .shrinkToFit | .extend .. => False

/-- The sequence `s'` is what a removal has left of `s`. -/
structure CutFrom (s' s : Sequence α n) : Prop where
  /-- Inline, the room is the one there always is. -/
  inline : s.isInline = true → s'.isInline = true ∧ s'.capacity = n
  /-- On the heap it is cut down to the least power of two that suffices, if it is more. -/
  heap : s.isInline = false → s'.isInline = false ∧
    s'.capacity = min s.capacity (powerAtLeast s'.length)
  emptied : s.isInline = false → s'.length = 0 → s'.capacity ≤ 1
  left : s.isInline = false → 0 < s'.length → s'.capacity < 2 * s'.length

theorem Holds.isInline_of_heap {c : Nat} (h : s.Holds xs (.heap c)) : s.isInline = false := by
  rw [← Bool.not_eq_true, h.isInline_iff]
  exact nofun

/-- Room that was cut down to what suffices is what a removal is to leave. -/
theorem Holds.cutFrom {ys : List α} (h : s.Holds xs room)
    (h' : s'.Holds ys (room.cut (powerAtLeast ys.length))) : s'.CutFrom s := by
  cases room with
  | inline =>
    have hin : ¬ s.isInline = false := by
      rw [Bool.not_eq_false, h.isInline_iff]
    exact ⟨fun _ => ⟨h'.isInline_iff.2 rfl, h'.capacity⟩, fun hout => absurd hout hin,
      fun hout => absurd hout hin, fun hout => absurd hout hin⟩
  | heap c =>
    have hout : ¬ s.isInline = true := by
      rw [Bool.not_eq_true, h.isInline_of_heap]
    have hcapacity : s'.capacity = min s.capacity (powerAtLeast s'.length) := by
      rw [h'.capacity, h.capacity, h'.length, Nat.min_comm]
      rfl
    refine ⟨fun hin => absurd hin hout, fun _ => ⟨h'.isInline_of_heap, hcapacity⟩,
      fun _ hzero => ?_, fun _ hpos => ?_⟩
    · rw [hcapacity, hzero]
      exact Nat.min_le_right ..
    · rw [hcapacity]
      exact Nat.lt_of_le_of_lt (Nat.min_le_right ..) (powerAtLeast_lt_two_mul hpos)

/-- A removal is not refused, leaves fewer elements if any, and cuts the room down to them. -/
theorem Edit.onRoom_of_removes {e : Edit α} (he : e.Removes xs.length) (room : Room) :
    e.refusal? xs.length = none ∧ (e.effect xs).length ≤ xs.length ∧
      e.effectOnRoom n xs room = room.cut (powerAtLeast (e.effect xs).length) := by
  cases e with
  | pop =>
    have hne : xs ≠ [] := List.length_pos_iff.1 he
    refine ⟨rfl, by simp [effect], ?_⟩
    rw [effectOnRoom, if_neg hne, effect, List.length_dropLast]
  | remove i =>
    have hi : i < xs.length := he
    have hlen : (xs.eraseIdx i).length = xs.length - 1 := List.length_eraseIdx_of_lt hi
    refine ⟨if_neg (Nat.not_le.2 hi), ?_, ?_⟩
    · rw [effect, hlen]
      exact Nat.sub_le ..
    · rw [effectOnRoom, effect, hlen]
  | removeRange start stop =>
    obtain ⟨hle, hstop⟩ : start ≤ stop ∧ stop ≤ xs.length := he
    have hlen : (xs.take start ++ xs.drop stop).length = start + (xs.length - stop) := by
      rw [List.length_append, List.length_take_of_le (Nat.le_trans hle hstop), List.length_drop]
    refine ⟨if_neg (by omega), ?_, ?_⟩
    · rw [effect, hlen]
      omega
    · rw [effectOnRoom, effect, hlen]
  | truncate k =>
    have hk : k < xs.length := he
    refine ⟨rfl, List.length_take_le' .., ?_⟩
    rw [effectOnRoom, if_neg (Nat.not_le.2 hk), effect]
  | resize k x =>
    have hk : k < xs.length := he
    have hlen : xs.take k ++ List.replicate (k - xs.length) x = xs.take k := by
      rw [Nat.sub_eq_zero_of_le (Nat.le_of_lt hk), List.replicate_zero, List.append_nil]
    refine ⟨rfl, ?_, ?_⟩
    · rw [effect, hlen]
      exact List.length_take_le' ..
    · rw [effectOnRoom, if_neg (Nat.not_lt.2 (Nat.le_of_lt hk)), if_neg (Nat.not_le.2 hk), effect,
        hlen]
  | push | pushThen | insert | insertAll | clear | read | change | front | back | changeBack
  | reserve | shrinkToFit | extend | overwrite => exact he.elim

/-- An operation that has no business with the room leaves it, and adds no elements. -/
theorem Edit.onRoom_of_spares {e : Edit α} (he : e.Spares xs.length) (room : Room) :
    (e.onList xs).2.length ≤ xs.length ∧ e.onRoom n xs room = room := by
  cases hr : e.refusal? xs.length with
  | some err =>
    rw [onList_of_refusal hr, onRoom, hr]
    exact ⟨Nat.le_refl _, rfl⟩
  | none =>
    rw [onList_of_allowed hr, onRoom, hr]
    -- What is not refused either comes to nothing or works in place.
    cases e with
    | pop =>
      obtain rfl : xs = [] := List.length_eq_zero_iff.1 he
      exact ⟨Nat.le_refl _, rfl⟩
    | truncate k =>
      have hk : xs.length ≤ k := he
      exact ⟨List.length_take_le' .., if_pos hk⟩
    | resize k x =>
      obtain rfl : k = xs.length := he
      refine ⟨?_, ?_⟩
      · simp [effect]
      · rw [effectOnRoom, if_neg (Nat.lt_irrefl _), if_pos (Nat.le_refl _)]
    | clear => exact ⟨Nat.zero_le _, rfl⟩
    | read | front | back => exact ⟨Nat.le_refl _, rfl⟩
    | change i f => exact ⟨Nat.le_of_eq (List.length_modify ..), rfl⟩
    | changeBack f => exact ⟨Nat.le_of_eq (List.length_modify ..), rfl⟩
    | overwrite ys =>
      refine ⟨?_, rfl⟩
      simp only [effect, List.length_append, List.length_take, List.length_drop]
      omega
    | insert i x | insertAll i ys =>
      have hi : xs.length < i := he
      exact absurd ((if_pos hi).symm.trans hr) (Option.some_ne_none _)
    | remove i =>
      have hi : xs.length ≤ i := he
      exact absurd ((if_pos hi).symm.trans hr) (Option.some_ne_none _)
    | removeRange start stop =>
      have hrange : stop < start ∨ xs.length < stop := he
      exact absurd ((if_pos hrange).symm.trans hr) (Option.some_ne_none _)
    | push | pushThen | reserve | shrinkToFit | extend => exact he.elim

/-! ## After a history -/

/-- A removal from a sequence that a history has led to has a result, which takes out what it
takes out of a list and leaves room for no more than twice what is left. What removes nothing
leaves the room as it was, and nothing at all leaves less room than there are elements. The
number of inline slots is a word, as all capacities are. -/
theorem removal_boundsRoom (hn : n ≤ maxCapacity) (steps : List (Step ρ α))
    (regs : ρ → Sequence α n) (hrun : run (fun _ => empty) steps = some regs) :
    (∀ r (e : Edit α), e.Removes (regs r).length →
      ∃ x? s', e.run (regs r) = some (.ok x?, s') ∧ s'.CutFrom (regs r) ∧
        s'.toList? = (regs r).toList?.map fun xs => e.effect xs) ∧
    (∀ r (e : Edit α), e.Spares (regs r).length →
      ∃ answer s', e.run (regs r) = some (answer, s') ∧
        s'.capacity = (regs r).capacity ∧ s'.isInline = (regs r).isInline) ∧
    ∀ (st : Step ρ α) answer regs', st.perform regs = some (answer, regs') →
      ∀ r, (regs' r).length ≤ (regs' r).capacity := by
  have h : HoldAll regs (listsAfter steps) (roomsFrom n (fun _ => []) (fun _ => .inline) steps) :=
    (secures_run_rooms holdAll_empty steps).sound regs hrun
  have hinline : ∀ _ : ρ, Room.inline.capacity n ≤ maxCapacity := fun _ => hn
  have hmax : ∀ r, (listsAfter steps r).length ≤ maxCapacity := by
    intro r
    exact Nat.le_trans (h r).fits (capacity_roomsFrom_le hn steps hinline r)
  refine ⟨fun r e he => ?_, fun r e he => ?_, fun st answer regs' hperform r => ?_⟩
  · rw [(h r).length] at he
    obtain ⟨hallowed, hless, hroom⟩ := Edit.onRoom_of_removes he _
    obtain ⟨⟨answer, s'⟩, hresult, hanswer, h'⟩ :=
      (Edit.secures_run_of_allowed (h r) hallowed).exists_eq (Nat.le_trans hless (hmax r))
    rw [show answer = _ from hanswer] at hresult
    rw [hroom] at h'
    refine ⟨_, s', hresult, (h r).cutFrom h', ?_⟩
    rw [(h r).toList?, h'.toList?]
    rfl
  · rw [(h r).length] at he
    obtain ⟨hless, hroom⟩ := Edit.onRoom_of_spares he _
    obtain ⟨⟨answer, s'⟩, hresult, -, h', -⟩ :=
      (e.secures_run (h r)).exists_eq (Nat.le_trans hless (hmax r))
    rw [hroom] at h'
    refine ⟨answer, s', hresult, ?_, ?_⟩
    · rw [h'.capacity, (h r).capacity]
    · rw [Bool.eq_iff_iff, h'.isInline_iff, (h r).isInline_iff]
  · obtain ⟨-, -, h'⟩ := (st.secures_perform_rooms h).sound _ hperform
    rw [(h' r).length, (h' r).capacity]
    exact (h' r).fits

/-- Three elements in room for 128 of them: when an empty range is taken out, they are left
with four slots, and when they are cleared, with all. -/
theorem removal_boundsRoom_reserved :
    ∃ regs : Unit → Sequence Nat 2,
      2 ≤ maxCapacity ∧
      run (fun _ => empty) [.edit () (.extend 0 [1, 2, 3]), .edit () (.reserve 100)] =
        some regs ∧
      (regs ()).capacity = 128 ∧
      (∃ x? s', (Edit.removeRange 1 1).run (regs ()) = some (.ok x?, s') ∧
        s'.toList? = some [1, 2, 3] ∧ s'.capacity = 4) ∧
      ∃ answer s', Edit.clear.run (regs ()) = some (answer, s') ∧ s'.capacity = 128 := by
  have hn : 2 ≤ maxCapacity := by decide
  have hruns : (run (n := 2) (fun _ => empty)
      [.edit () (.extend 0 [1, 2, 3]), .edit () (.reserve 100)]).map (fun regs =>
        ((regs ()).toList?, (regs ()).capacity, (regs ()).isInline)) =
      some (some [1, 2, 3], 128, false) := by decide
  obtain ⟨regs, hrun, hfacts⟩ := Option.map_eq_some_iff.1 hruns
  obtain ⟨hlist, hfacts⟩ := Prod.mk.inj hfacts
  obtain ⟨hcapacity, hout⟩ := Prod.mk.inj hfacts
  have hlen : (regs ()).length = 3 := (holds_of_toList? hlist).length
  obtain ⟨hremoves, hspares, -⟩ := removal_boundsRoom hn _ regs hrun
  obtain ⟨x?, s', hremoved, hcut, hleft⟩ :=
    hremoves () (.removeRange 1 1) ⟨Nat.le_refl 1, by omega⟩
  obtain ⟨answer, t, hcleared, hkept, -⟩ := hspares () .clear trivial
  rw [hlist] at hleft
  have hleft : s'.toList? = some [1, 2, 3] := hleft
  have hcount : s'.length = 3 := (holds_of_toList? hleft).length
  refine ⟨regs, hn, hrun, hcapacity, ⟨x?, s', hremoved, hleft, ?_⟩, answer, t, hcleared,
    hkept.trans hcapacity⟩
  rw [(hcut.heap hout).2, hcapacity, hcount]
  decide

end Sequence

end DeclAtlas
