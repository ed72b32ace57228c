import DeclAtlas.Proofs.Sequence.Contents
import DeclAtlas.Sequence.Edit

/-!
# Operations on plain lists

What each operation on a sequence refuses, hands back and does is said here for plain lists,
without slots and without room. A sequence that holds a list does the same: it gives the same
answer and then holds the list that the operation makes of it. What it refuses leaves it as
it was, down to the slots.

## Main results

* `Edit.run_of_refusal`: a refused operation hands back the error and the same sequence.
* `Edit.secures_run`: an operation on a sequence is the operation on the list that it holds.
-/

universe u

namespace DeclAtlas.Sequence

variable {α : Type u} {n : Nat} {s : Sequence α n} {xs ys : List α} {room room' : Room}
  {c : Prop}

/-! ## The operations -/

/-- Why an operation is refused on a list of this length, if it is. -/
def Edit.refusal? (length : Nat) : Edit α → Option Error
  | .insert i _ | .insertAll i _ =>
    if length < i then some (.indexOutOfRange i length) else none
  | .remove i | .read i | .change i _ =>
    if length ≤ i then some (.indexOutOfRange i length) else none
  | .removeRange start stop =>
    if stop < start ∨ length < stop then some (.invalidRange start stop length) else none
  | .front => if length = 0 then some (.empty "front") else none
  | .back | .changeBack _ => if length = 0 then some (.empty "back") else none
  | .push _ | .pushThen .. | .pop | .truncate _ | .clear | .reserve _ | .shrinkToFit
  | .resize .. | .extend .. | .overwrite _ => none

/-- What an operation that is not refused hands back. -/
def Edit.value? (xs : List α) : Edit α → Option α
  | .pushThen x _ => some x
  | .pop | .back | .changeBack _ => xs.getLast?
  | .front => xs.head?
  | .remove i | .read i | .change i _ => xs[i]?
  | .push _ | .insert .. | .insertAll .. | .removeRange .. | .truncate _ | .clear | .reserve _
  | .shrinkToFit | .resize .. | .extend .. | .overwrite _ => none

/-- What an operation that is not refused makes of a list. -/
def Edit.effect (xs : List α) : Edit α → List α
  | .push x => xs ++ [x]
  | .pushThen x f => xs ++ [f x]
  | .pop => xs.dropLast
  | .insert i x => xs.insertIdx i x
  | .insertAll i ys => xs.take i ++ ys ++ xs.drop i
  | .remove i => xs.eraseIdx i
  | .removeRange start stop => xs.take start ++ xs.drop stop
  | .truncate k => xs.take k
  | .clear => []
  | .change i f => xs.modify i f
  | .changeBack f => xs.modify (xs.length - 1) f
  | .resize k x => xs.take k ++ List.replicate (k - xs.length) x
  | .extend _ ys => xs ++ ys
  | .overwrite ys => ys.take xs.length ++ xs.drop ys.length
  | .read _ | .front | .back | .reserve _ | .shrinkToFit => xs

/-- The room after an operation that is not refused. -/
def Edit.effectOnRoom (n : Nat) (xs : List α) (room : Room) : Edit α → Room
  | .push _ | .pushThen .. | .insert .. => room.forPush n xs.length
  | .insertAll _ ys => room.reserve n (xs.length + ys.length)
  | .pop => if xs = [] then room else room.cut (powerAtLeast (xs.length - 1))
  | .remove _ => room.cut (powerAtLeast (xs.length - 1))
  | .removeRange start stop => room.cut (powerAtLeast (start + (xs.length - stop)))
  | .truncate k =>
    if xs.length ≤ k then room else room.cut (powerAtLeast (xs.take k).length)
  | .resize k _ =>
    if xs.length < k then (room.reserve n k).forPushes n xs.length (k - xs.length)
    else if xs.length ≤ k then room else room.cut (powerAtLeast (xs.take k).length)
  | .reserve k => room.reserve n k
  | .shrinkToFit => room.cut xs.length
  | .extend expected ys =>
    (room.reserve n (min (xs.length + expected) maxCapacity)).forPushes n xs.length ys.length
  | .clear | .read _ | .change .. | .front | .back | .changeBack _ | .overwrite _ => room

/-- The answer of an operation on a list, and the list after it. -/
def Edit.onList (xs : List α) (e : Edit α) : Answer α × List α :=
  match e.refusal? xs.length with
  | some err => (.error err, xs)
  | none => (.ok (e.value? xs), e.effect xs)

/-- The room after an operation. -/
def Edit.onRoom (n : Nat) (xs : List α) (room : Room) (e : Edit α) : Room :=
  match e.refusal? xs.length with
  | some _ => room
  | none => e.effectOnRoom n xs room

theorem Edit.onList_of_refusal {e : Edit α} {err : Error}
    (hr : e.refusal? xs.length = some err) : e.onList xs = (.error err, xs) := by
  rw [onList, hr]

theorem Edit.onList_of_allowed {e : Edit α} (hr : e.refusal? xs.length = none) :
    e.onList xs = (.ok (e.value? xs), e.effect xs) := by
  rw [onList, hr]

/-- An operation fails exactly if it is refused, and then with the error it is refused with. -/
theorem Edit.fst_onList_eq_error_iff (e : Edit α) (err : Error) :
    (e.onList xs).1 = .error err ↔ e.refusal? xs.length = some err := by
  cases hr : e.refusal? xs.length with
  | some err' =>
    rw [onList_of_refusal hr]
    constructor
    · intro he
      exact congrArg some (Except.error.inj he)
    · intro he
      exact congrArg Except.error (Option.some.inj he)
  | none =>
    rw [onList_of_allowed hr]
    exact ⟨nofun, nofun⟩

theorem Edit.onRoom_ne_inline (e : Edit α) (h : room ≠ .inline) :
    e.onRoom n xs room ≠ .inline := by
  unfold onRoom
  split
  · exact h
  · cases e with
    | push | pushThen | insert => exact Room.forPush_ne_inline h
    | insertAll | reserve => exact Room.reserve_ne_inline h
    | remove | removeRange | shrinkToFit => exact Room.cut_ne_inline h
    | extend => exact Room.forPushes_ne_inline (Room.reserve_ne_inline h)
    | clear | read | change | front | back | changeBack | overwrite => exact h
    | pop | truncate =>
      simp only [effectOnRoom]
      split
      · exact h
      · exact Room.cut_ne_inline h
    | resize =>
      simp only [effectOnRoom]
      split
      · exact Room.forPushes_ne_inline (Room.reserve_ne_inline h)
      · split
        · exact h
        · exact Room.cut_ne_inline h

/-! ## Access by position -/

/-- No element there. -/
theorem access_of_none (h : s.Holds xs room) {i : Nat} (hi : xs[i]? = none) (err : Error)
    (f? : Option (α → α)) : s.access i err f? = some (.error err, s) := by
  unfold access
  rw [h.get?, hi]

theorem secures_access (h : s.Holds xs room) {i : Nat} (hi : i < xs.length) (err : Error)
    (f? : Option (α → α)) :
    Secures c (s.access i err f?) fun p => p.1 = .ok xs[i]? ∧
      p.2.Holds (match f? with
        | none => xs
        | some f => xs.modify i f) room := by
  have hx : xs[i]? = some xs[i] := List.getElem?_eq_getElem hi
  unfold access
  rw [h.get?, hx]
  cases f? with
  | none => exact Secures.of_some ⟨rfl, h⟩
  | some f =>
    refine (h.secures_modify? hx f).bind fun s₁ h₁ => ?_
    exact Secures.of_some ⟨rfl, h₁⟩

theorem secures_quiet {o : Option (Sequence α n)} (ho : Secures c o (·.Holds ys room')) :
    Secures c (quiet <$> o) fun p => p.1 = .ok none ∧ p.2.Holds ys room' :=
  ho.map fun _ hs => ⟨rfl, hs⟩

theorem secures_done {o : Option (Except Error Unit × Sequence α n)}
    (ho : Secures c o fun p => p.1 = .ok () ∧ p.2.Holds ys room') :
    Secures c (do
      let (r, s) ← o
      return (r.map fun _ => (none : Option α), s)) fun p =>
        p.1 = .ok none ∧ p.2.Holds ys room' := by
  refine ho.bind fun p hp => Secures.of_some ⟨?_, hp.2⟩
  show p.1.map _ = _
  rw [hp.1]
  rfl

/-! ## The operations on a sequence -/

private theorem not_of_ite_eq_none {p : Prop} [Decidable p] {err : Error}
    (h : (if p then some err else none) = none) : ¬ p :=
  fun hp => nomatch (if_pos hp).symm.trans h

/-- A refused operation hands back the error, and the sequence as it was. -/
theorem Edit.run_of_refusal (h : s.Holds xs room) {e : Edit α} {err : Error}
    (hr : e.refusal? xs.length = some err) : e.run s = some (.error err, s) := by
  have hlen := h.length
  cases e with
  | insert i x =>
    obtain ⟨hlt, ⟨⟩⟩ := Option.ite_none_right_eq_some.1 hr
    simp only [run, Sequence.insert, hlen, if_pos hlt]
    rfl
  | insertAll i ys =>
    obtain ⟨hlt, ⟨⟩⟩ := Option.ite_none_right_eq_some.1 hr
    simp only [run, Sequence.insertAll, hlen, if_pos hlt]
    rfl
  | remove i =>
    obtain ⟨hle, ⟨⟩⟩ := Option.ite_none_right_eq_some.1 hr
    simp only [run, Sequence.remove, hlen, if_pos hle]
    rfl
  | removeRange start stop =>
    obtain ⟨hbad, ⟨⟩⟩ := Option.ite_none_right_eq_some.1 hr
    simp only [run, Sequence.removeRange, hlen, if_pos hbad]
    rfl
  | read i | change i f =>
    obtain ⟨hle, ⟨⟩⟩ := Option.ite_none_right_eq_some.1 hr
    simp only [run, hlen]
    exact access_of_none h (List.getElem?_eq_none hle) _ _
  | front =>
    obtain ⟨hnil, ⟨⟩⟩ := Option.ite_none_right_eq_some.1 hr
    simp only [run]
    exact access_of_none h (List.getElem?_eq_none (by omega)) _ _
  | back | changeBack f =>
    obtain ⟨hnil, ⟨⟩⟩ := Option.ite_none_right_eq_some.1 hr
    simp only [run, hlen]
    exact access_of_none h (List.getElem?_eq_none (by omega)) _ _
  | push | pushThen | pop | truncate | clear | reserve | shrinkToFit | resize | extend
  | overwrite => exact nomatch hr

/-- An operation that is not refused hands back what it does on the list that the sequence
holds, and makes the same of the one as of the other. -/
theorem Edit.secures_run_of_allowed (h : s.Holds xs room) {e : Edit α}
    (hr : e.refusal? xs.length = none) :
    Secures ((e.effect xs).length ≤ maxCapacity) (e.run s) fun p =>
      p.1 = .ok (e.value? xs) ∧ p.2.Holds (e.effect xs) (e.effectOnRoom n xs room) := by
  cases e with
  | push x =>
    refine secures_quiet ((h.secures_push x).of_imp fun hmax => ?_)
    rw [effect, List.length_append, List.length_singleton] at hmax
    exact hmax
  | pushThen x f =>
    refine ((h.secures_push x).of_imp fun hmax => ?_).bind fun s₁ h₁ => ?_
    · rw [effect, List.length_append, List.length_singleton] at hmax
      exact hmax
    · have hx : (xs ++ [x])[xs.length]? = some x := List.getElem?_concat_length
      have hmodify : (xs ++ [x]).modify xs.length f = xs ++ [f x] := by
        rw [List.modify_eq_take_drop, List.take_left, List.drop_left]
        rfl
      rw [h.length, h₁.get?, hx]
      refine (h₁.secures_modify? hx f).bind fun s₂ h₂ => ?_
      rw [hmodify] at h₂
      exact Secures.of_some ⟨rfl, h₂⟩
  | pop =>
    refine (h.secures_pop.of_imp fun hmax => ?_).bind fun p hp => ?_
    · rw [effect, List.length_dropLast] at hmax
      omega
    · exact Secures.of_some ⟨congrArg Except.ok hp.1, hp.2⟩
  | insert i x =>
    have hi : i ≤ xs.length := Nat.le_of_not_lt (not_of_ite_eq_none hr)
    refine secures_done ((h.secures_insert hi x).of_imp fun hmax => ?_)
    rw [effect, List.length_insertIdx_of_le_length hi] at hmax
    exact hmax
  | insertAll i ys =>
    have hi : i ≤ xs.length := Nat.le_of_not_lt (not_of_ite_eq_none hr)
    refine secures_done ((h.secures_insertAll hi ys).of_imp fun hmax => ?_)
    simp only [effect, List.length_append, List.length_take, List.length_drop] at hmax
    omega
  | remove i =>
    have hi : i < xs.length := Nat.lt_of_not_le (not_of_ite_eq_none hr)
    have hx : xs[i]? = some xs[i] := List.getElem?_eq_getElem hi
    refine ((h.secures_remove hx).of_imp fun hmax => ?_).bind fun p hp => ?_
    · rw [effect, List.length_eraseIdx_of_lt hi] at hmax
      omega
    · refine Secures.of_some ⟨?_, hp.2⟩
      show p.1.map some = .ok xs[i]?
      rw [hp.1, hx]
      rfl
  | removeRange start stop =>
    have hrange : ¬ (stop < start ∨ xs.length < stop) := not_of_ite_eq_none hr
    have hle : start ≤ stop ∧ stop ≤ xs.length := by omega
    refine secures_done ((h.secures_removeRange hle.1 hle.2).of_imp fun hmax => ?_)
    simp only [effect, List.length_append, List.length_take, List.length_drop] at hmax
    omega
  | truncate k => exact secures_quiet (h.secures_truncate k)
  | clear => exact Secures.of_some ⟨rfl, h.clear⟩
  | read i =>
    have hi : i < xs.length := Nat.lt_of_not_le (not_of_ite_eq_none hr)
    exact secures_access h hi _ none
  | change i f =>
    have hi : i < xs.length := Nat.lt_of_not_le (not_of_ite_eq_none hr)
    exact secures_access h hi _ (some f)
  | front =>
    have hpos : 0 < xs.length := Nat.pos_of_ne_zero (not_of_ite_eq_none hr)
    rw [value?, List.head?_eq_getElem?]
    exact secures_access h hpos _ none
  | back =>
    have hpos : 0 < xs.length := Nat.pos_of_ne_zero (not_of_ite_eq_none hr)
    rw [value?, List.getLast?_eq_getElem?, run, h.length]
    exact secures_access h (Nat.sub_lt hpos Nat.one_pos) _ none
  | changeBack f =>
    have hpos : 0 < xs.length := Nat.pos_of_ne_zero (not_of_ite_eq_none hr)
    rw [value?, List.getLast?_eq_getElem?, run, h.length]
    exact secures_access h (Nat.sub_lt hpos Nat.one_pos) _ (some f)
  | reserve k => exact secures_quiet (h.secures_reserve k)
  | shrinkToFit => exact secures_quiet h.secures_shrinkToFit
  | resize k x =>
    refine secures_quiet ((h.secures_resize k x).of_imp fun hmax => ?_)
    simp only [effect, List.length_append, List.length_take, List.length_replicate] at hmax
    omega
  | extend expected ys =>
    refine secures_quiet ((h.secures_extend expected ys).of_imp fun hmax => ?_)
    rw [effect, List.length_append] at hmax
    exact hmax
  | overwrite ys => exact secures_quiet (h.secures_overwrite ys)

/-- An operation on a sequence is the operation on the list that it holds; and if it fails,
nothing at all has changed. -/
theorem Edit.secures_run (h : s.Holds xs room) (e : Edit α) :
    Secures ((e.onList xs).2.length ≤ maxCapacity) (e.run s) fun p =>
      p.1 = (e.onList xs).1 ∧ p.2.Holds (e.onList xs).2 (e.onRoom n xs room) ∧
        ∀ err, p.1 = .error err → p.2 = s := by
  cases hr : e.refusal? xs.length with
  | some err =>
    rw [run_of_refusal h hr, onList_of_refusal hr, onRoom, hr]
    exact Secures.of_some ⟨rfl, h, fun _ _ => rfl⟩
  | none =>
    rw [onList_of_allowed hr, onRoom, hr]
    refine (secures_run_of_allowed h hr).mono ?_
    rintro p ⟨hanswer, hholds⟩
    refine ⟨hanswer, hholds, fun err he => ?_⟩
    rw [hanswer] at he
    exact nomatch he

end DeclAtlas.Sequence
