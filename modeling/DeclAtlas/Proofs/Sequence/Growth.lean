import DeclAtlas.Proofs.Sequence.Contents
import Mathlib.Order.Bounds.Basic

/-!
# Growth

A sequence can be given many elements at once or one after the other. Given at once, it
makes room for all of them beforehand; given singly, it climbs from one power of two to the
next, from whatever capacity it had. Both ways end with the same room, since the power of two
above a number is also that of all numbers up to it.

So `reserve` tells the room after any growth: what there is if it suffices, and else the
least power of two that does.

## Main results

* `isLeast_powerAtLeast`, `powersFrom_eq_empty`: what `powerAtLeast` is the least of.
* `Room.reserve_reserve`, `Room.forPushes_eq_reserve`: growing by steps is growing at once.
* `bulk_eq_pushes`: elements added together and one by one leave the same to be seen.
-/

universe u

namespace DeclAtlas

/-! ## Powers of two -/

/-- The powers of two from `k` on that a word can hold. -/
def powersFrom (k : Nat) : Set Nat := {p | k ≤ p ∧ p ≤ maxCapacity ∧ ∃ j, p = Word.count j}

theorem isLeast_powerAtLeast {k : Nat} (hk : k ≤ Word.count 63) :
    IsLeast (powersFrom k) (powerAtLeast k) := by
  have hword : Word.count 63 ≤ maxCapacity := by decide
  have hle : k ≤ powerAtLeast k := le_powerAtLeast (Nat.le_trans hk hword)
  unfold powerAtLeast at hle ⊢
  by_cases hone : k ≤ 1
  · rw [if_pos hone] at hle ⊢
    refine ⟨⟨hle, by decide, 0, rfl⟩, ?_⟩
    rintro p ⟨-, -, j, rfl⟩
    exact Nat.two_pow_pos j
  · rw [if_neg hone, if_pos hk] at hle ⊢
    have hpred : k - 1 ≠ 0 := by omega
    have hlog : Nat.log2 (k - 1) < 63 := (Nat.log2_lt hpred).2 (by
      show k - 1 < Word.count 63
      omega)
    refine ⟨⟨hle, Nat.le_trans (Nat.pow_le_pow_right Nat.two_pos hlog) hword, _, rfl⟩, ?_⟩
    rintro p ⟨hp, -, j, rfl⟩
    have hj : Nat.log2 (k - 1) < j := (Nat.log2_lt hpred).2 (by
      show k - 1 < Word.count j
      omega)
    exact Nat.pow_le_pow_right Nat.two_pos hj

theorem powersFrom_eq_empty {k : Nat} (hk : Word.count 63 < k) : powersFrom k = ∅ := by
  apply Set.eq_empty_of_forall_notMem
  rintro p ⟨hp, hmax, j, rfl⟩
  have hj : 63 < j := (Nat.pow_lt_pow_iff_right Nat.one_lt_two).1 (Nat.lt_of_lt_of_le hk hp)
  have hbig : Word.count 64 ≤ Word.count j := Nat.pow_le_pow_right Nat.two_pos hj
  have hlast : maxCapacity < Word.count 64 := by decide
  omega

theorem powerAtLeast_of_lt {k : Nat} (hk : Word.count 63 < k) : powerAtLeast k = maxCapacity := by
  have hone : 1 ≤ Word.count 63 := by decide
  unfold powerAtLeast
  rw [if_neg (by omega), if_neg (by omega)]

/-- The power of two above a number is that of every number up to it. -/
theorem powerAtLeast_eq_of_le {k m : Nat} (hkm : k ≤ m) (hm : m ≤ powerAtLeast k) :
    powerAtLeast m = powerAtLeast k := by
  rcases Nat.lt_or_ge (Word.count 63) k with hk | hk
  · rw [powerAtLeast_of_lt hk, powerAtLeast_of_lt (Nat.lt_of_lt_of_le hk hkm)]
  · obtain ⟨⟨-, hmax, hpower⟩, hleast⟩ := isLeast_powerAtLeast hk
    have hlast : powerAtLeast k ≤ Word.count 63 := hleast ⟨hk, by decide, 63, rfl⟩
    have hsame : IsLeast (powersFrom m) (powerAtLeast k) := by
      refine ⟨⟨hm, hmax, hpower⟩, ?_⟩
      rintro p ⟨hp, hrest⟩
      exact hleast ⟨Nat.le_trans hkm hp, hrest⟩
    exact (isLeast_powerAtLeast (Nat.le_trans hm hlast)).unique hsame

/-! ## Room by steps -/

namespace Room

variable {n k m length count : Nat} {room : Room}

/-- Room made for some and then for more is the room made for more at once. -/
theorem reserve_reserve (hkm : k ≤ m) : (room.reserve n k).reserve n m = room.reserve n m := by
  rcases Nat.lt_or_ge (room.capacity n) k with hk | hk
  · rw [reserve_of_lt hk, reserve_of_lt (Nat.lt_of_lt_of_le hk hkm)]
    rcases Nat.lt_or_ge (powerAtLeast k) m with hm | hm
    · exact reserve_of_lt hm
    · rw [reserve_of_le (show m ≤ (heap (powerAtLeast k)).capacity n from hm),
        powerAtLeast_eq_of_le hkm hm]
  · rw [reserve_of_le hk]

/-- A push makes room for one more than there is. -/
theorem forPush_eq_reserve (hfit : length ≤ room.capacity n) (hmax : length < maxCapacity) :
    room.forPush n length = room.reserve n (length + 1) := by
  unfold forPush reserve
  by_cases hfull : length = room.capacity n
  · have hnext : min (room.capacity n + 1) maxCapacity = length + 1 := by omega
    rw [if_pos hfull, if_pos (by omega), hnext]
  · rw [if_neg hfull, if_neg (by omega)]

/-- Pushes one after another make the room that is made at once for all of them. -/
theorem forPushes_eq_reserve (hfit : length ≤ room.capacity n)
    (hmax : length + count ≤ maxCapacity) :
    room.forPushes n length count = room.reserve n (length + count) := by
  induction count generalizing room length with
  | zero => exact (reserve_of_le hfit).symm
  | succ count ih =>
      have hroom : length + 1 ≤ (room.reserve n (length + 1)).capacity n :=
        room.le_capacity_reserve (by omega)
      have hcount : length + 1 + count = length + (count + 1) := by omega
      rw [forPushes, forPush_eq_reserve hfit (by omega), ih hroom (by omega), hcount,
        reserve_reserve (by omega)]

theorem capacity_le_reserve (room : Room) (hk : k ≤ maxCapacity) :
    room.capacity n ≤ (room.reserve n k).capacity n := by
  rcases Nat.lt_or_ge (room.capacity n) k with hlt | hge
  · exact Nat.le_trans (Nat.le_of_lt hlt) (room.le_capacity_reserve hk)
  · rw [reserve_of_le hge]

/-- Room made for some of the pushes beforehand makes no difference in the end. -/
theorem forPushes_reserve (hfit : length ≤ room.capacity n) (hk : k ≤ length + count)
    (hmax : length + count ≤ maxCapacity) :
    (room.reserve n k).forPushes n length count = room.reserve n (length + count) := by
  have hmore := room.capacity_le_reserve (n := n) (Nat.le_trans hk hmax)
  rw [forPushes_eq_reserve (Nat.le_trans hfit hmore) hmax, reserve_reserve hk]

end Room

namespace Sequence

variable {α : Type u} {n : Nat} {s : Sequence α n} {xs ys zs : List α} {room : Room} {c : Prop}

/-! ## One after another -/

/-- Puts the elements in one by one, the first at position `i` and each behind the last. -/
def insertEach (s : Sequence α n) (i : Nat) :
    List α → Option (Except Error Unit × Sequence α n)
  | [] => some (.ok (), s)
  | x :: xs => do
    let (r, s) ← s.insert i x
    match r with
    | .ok _ => s.insertEach (i + 1) xs
    | .error e => return (.error e, s)

theorem Holds.secures_insertEach (h : s.Holds xs room) {i : Nat} (hi : i ≤ xs.length)
    (ys : List α) :
    Secures (xs.length + ys.length ≤ maxCapacity) (s.insertEach i ys) fun p =>
      p.1 = .ok () ∧ p.2.Holds (xs.take i ++ ys ++ xs.drop i)
        (room.forPushes n xs.length ys.length) := by
  induction ys generalizing s xs room i with
  | nil =>
      rw [List.append_nil, List.take_append_drop]
      exact Secures.of_some ⟨rfl, h⟩
  | cons y ys ih =>
      refine ((h.secures_insert hi y).of_imp fun hmax => ?_).bind ?_
      · rw [List.length_cons] at hmax
        omega
      · rintro ⟨r, s₁⟩ ⟨rfl, h₁⟩
        have hlen : (xs.insertIdx i y).length = xs.length + 1 :=
          List.length_insertIdx_of_le_length hi y
        have hrest := ih h₁ (i := i + 1) (by omega)
        have hfront : (xs.take i ++ [y]).length = i + 1 := by
          rw [List.length_append, List.length_take_of_le hi, List.length_singleton]
        rw [hlen, Buffer.insertIdx_eq_take_append_drop xs y hi, List.take_left' hfront,
          List.drop_left' hfront, List.append_assoc (xs.take i)] at hrest
        refine hrest.of_imp fun hmax => ?_
        rw [List.length_cons] at hmax
        omega

/-! ## What is seen of a sequence -/

/-- What can be seen of a sequence. -/
structure View (α : Type u) where
  contents : List α
  length : Nat
  capacity : Nat
  isInline : Bool
deriving DecidableEq

/-- What a sequence shows. -/
def view? (s : Sequence α n) : Option (View α) :=
  s.toList?.map fun xs => ⟨xs, s.length, s.capacity, s.isInline⟩

/-- What a sequence shows after an operation with an answer, and that answer. -/
def answered? (p : Except Error Unit × Sequence α n) : Option (Except Error Unit × View α) :=
  p.2.view?.map fun v => (p.1, v)

/-- The sequence `s` shows `v` after it has grown to hold `zs`: it is where it was if the
elements fit, and else on the heap, with as many slots as the least power of two that they
fit, or as a word can count if there is none. -/
structure GrownTo (s : Sequence α n) (zs : List α) (v : View α) : Prop where
  contents : v.contents = zs
  length : v.length = zs.length
  fits : zs.length ≤ s.capacity → v.capacity = s.capacity ∧ v.isInline = s.isInline
  moves : s.capacity < zs.length → v.isInline = false ∧
    (IsLeast (powersFrom zs.length) v.capacity ∨
      powersFrom zs.length = ∅ ∧ v.capacity = maxCapacity)

/-- What a sequence shows that holds `zs` in some room. -/
def viewOf (n : Nat) (zs : List α) (room : Room) : View α :=
  ⟨zs, zs.length, room.capacity n, room = .inline⟩

theorem Holds.view? (h : s.Holds xs room) : s.view? = some (viewOf n xs room) := by
  have hinline : s.isInline = decide (room = .inline) := by
    rw [Bool.eq_iff_iff, decide_eq_true_iff]
    exact h.isInline_iff
  unfold Sequence.view? viewOf
  rw [h.toList?, h.length, h.capacity, hinline]
  rfl

theorem bind_view?_of_secures {o : Option (Sequence α n)} (ho : Secures c o (·.Holds zs room))
    (hc : c) : o.bind view? = some (viewOf n zs room) := by
  obtain ⟨t, rfl, ht⟩ := ho.exists_eq hc
  exact ht.view?

theorem bind_answered?_of_secures {o : Option (Except Error Unit × Sequence α n)}
    (ho : Secures c o fun p => p.1 = .ok () ∧ p.2.Holds zs room) (hc : c) :
    o.bind answered? = some (.ok (), viewOf n zs room) := by
  obtain ⟨⟨r, t⟩, rfl, rfl, ht⟩ := ho.exists_eq hc
  exact congrArg (Option.map _) ht.view?

/-- Room that was reserved is what growing is to lead to. -/
theorem Holds.grownTo (h : s.Holds xs room) (zs : List α) :
    GrownTo s zs (viewOf n zs (room.reserve n zs.length)) where
  contents := rfl
  length := rfl
  fits hle := by
    rw [h.capacity] at hle ⊢
    rw [Room.reserve_of_le hle, Bool.eq_iff_iff, h.isInline_iff]
    exact ⟨rfl, decide_eq_true_iff⟩
  moves hlt := by
    rw [h.capacity] at hlt
    rw [Room.reserve_of_lt hlt]
    refine ⟨rfl, ?_⟩
    rcases Nat.lt_or_ge (Word.count 63) zs.length with hbig | hsmall
    · exact Or.inr ⟨powersFrom_eq_empty hbig, powerAtLeast_of_lt hbig⟩
    · exact Or.inl (isLeast_powerAtLeast hsmall)

/-! ## Together or one by one -/

/-- Elements added together leave the same to be seen as elements added one by one, also of
the room: whether they are collected from a source that promised some of them, are copies of
one element, are put in at a position, or are the copy of a whole sequence. -/
theorem bulk_eq_pushes {s : Sequence α n} {xs ys : List α} (hs : s.toList? = some xs)
    (hmax : xs.length + ys.length ≤ maxCapacity) :
    (∃ v, GrownTo s (xs ++ ys) v ∧ (s.pushAll ys).bind view? = some v ∧
      (∀ expected ≤ ys.length, (s.extend expected ys).bind view? = some v) ∧
      ∀ k x, s.length < k → ys = List.replicate (k - s.length) x →
        (s.resize k x).bind view? = some v) ∧
    (∀ i ≤ xs.length, ∃ v, GrownTo s (xs.take i ++ ys ++ xs.drop i) v ∧
      (s.insertEach i ys).bind answered? = some (.ok (), v) ∧
      (s.insertAll i ys).bind answered? = some (.ok (), v)) ∧
    (∃ v, GrownTo (empty : Sequence α n) xs v ∧
      ((empty : Sequence α n).pushAll xs).bind view? = some v ∧ s.copy.bind view? = some v) := by
  have h : s.Holds xs s.room := holds_of_toList? hs
  have hlen : (xs ++ ys).length = xs.length + ys.length := List.length_append
  have hpushes := Room.forPushes_eq_reserve h.fits hmax
  refine ⟨⟨_, h.grownTo (xs ++ ys), ?_, ?_, ?_⟩, ?_, ⟨_, holds_empty.grownTo xs, ?_, ?_⟩⟩
  · rw [bind_view?_of_secures (h.secures_pushAll ys) hmax, hpushes, hlen]
  · intro expected hexpected
    have hpromised : min (xs.length + expected) maxCapacity = xs.length + expected := by omega
    rw [bind_view?_of_secures (h.secures_extend expected ys) hmax, hpromised,
      Room.forPushes_reserve h.fits (by omega) hmax, hlen]
  · intro k x hk hys
    rw [h.length] at hk hys
    have hcount : ys.length = k - xs.length := by rw [hys, List.length_replicate]
    have hall := h.secures_resize k x
    rw [if_pos hk, List.take_of_length_le (Nat.le_of_lt hk), ← hys, ← hcount] at hall
    rw [bind_view?_of_secures hall (by omega),
      Room.forPushes_reserve h.fits (by omega) hmax, hlen]
  · intro i hi
    have hput : (xs.take i ++ ys ++ xs.drop i).length = xs.length + ys.length := by
      rw [List.length_append, List.length_append, List.length_take_of_le hi, List.length_drop]
      omega
    refine ⟨_, h.grownTo _, ?_, ?_⟩
    · rw [bind_answered?_of_secures (h.secures_insertEach hi ys) hmax, hpushes, hput]
    · rw [bind_answered?_of_secures (h.secures_insertAll hi ys) hmax, hput]
  · have hfresh : 0 + xs.length ≤ maxCapacity := by omega
    rw [bind_view?_of_secures (holds_empty.secures_pushAll xs) hfresh, List.nil_append,
      List.length_nil, Room.forPushes_eq_reserve (Nat.zero_le _) hfresh, Nat.zero_add]
  · have hfresh : 0 + xs.length ≤ maxCapacity := by omega
    rw [bind_view?_of_secures h.secures_copy (by omega),
      Room.forPushes_reserve (Nat.zero_le _) (by omega) hfresh, Nat.zero_add]

/-- Three elements in three slots of the heap. -/
def fitted : Sequence Nat 2 := ((collect 0 [1, 2, 3]).bind shrinkToFit).getD empty

/-- Two more elements lead to eight slots, whichever way they are added. -/
theorem bulk_eq_pushes_fitted :
    fitted.toList? = some [1, 2, 3] ∧ fitted.capacity = 3 ∧
      [1, 2, 3].length + [4, 4].length ≤ maxCapacity ∧
      (fitted.pushAll [4, 4]).bind view? = some ⟨[1, 2, 3, 4, 4], 5, 8, false⟩ ∧
      (fitted.extend 1 [4, 4]).bind view? = some ⟨[1, 2, 3, 4, 4], 5, 8, false⟩ ∧
      (fitted.resize 5 4).bind view? = some ⟨[1, 2, 3, 4, 4], 5, 8, false⟩ ∧
      (fitted.insertAll 1 [4, 4]).bind answered? =
        (fitted.insertEach 1 [4, 4]).bind answered? ∧
      fitted.copy.bind view? = ((empty : Sequence Nat 2).pushAll [1, 2, 3]).bind view? := by
  have hread : fitted.toList? = some [1, 2, 3] := by decide
  have hmax : [1, 2, 3].length + [4, 4].length ≤ maxCapacity := by decide
  obtain ⟨⟨v, -, hpushes, hextend, hresize⟩, hinsert, w, -, hfresh, hcopy⟩ :=
    bulk_eq_pushes hread hmax
  have hgrown : (fitted.pushAll [4, 4]).bind view? = some ⟨[1, 2, 3, 4, 4], 5, 8, false⟩ := by
    decide
  obtain rfl := Option.some.inj (hpushes.symm.trans hgrown)
  obtain ⟨u, -, heach, hall⟩ := hinsert 1 (by decide)
  exact ⟨hread, by decide, hmax, hpushes, hextend 1 (by decide),
    hresize 5 4 (by decide) rfl, hall.trans heach.symm, hcopy.trans hfresh.symm⟩

end Sequence

end DeclAtlas
