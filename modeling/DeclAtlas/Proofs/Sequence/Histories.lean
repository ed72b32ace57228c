import DeclAtlas.Proofs.Sequence.Operations
import Mathlib.Data.List.Infix

/-!
# Histories of sequences

Sequences lie in registers. A step is an operation on one of them, an exchange between two,
or puts a copy or a collection of elements into one; a history is steps one after another,
from registers that are all empty.

The same steps are taken by plain lists in registers, and no difference can be seen: at any
moment the lists are what is read back, and every answer is the one that the lists give. On
the side of the slots, no history has ever left its buffers, and none leads back from the
heap.

## Main results

* `Step.secures_perform_rooms`: what one step does to what the registers hold.
* `secures_run_rooms`: what a history has led to.
* `perform_asOnLists`: a step at any moment answers and does what it does on lists, and does
  nothing when it fails.
* `run_keepsToRoom`: at any moment there is room for what there is, a sequence on the heap
  stays there, and the next step finds all slots that it touches.
-/

universe u

namespace DeclAtlas.Sequence

variable {α : Type u} {n : Nat} {ρ : Type} {regs : ρ → Sequence α n} {lists : ρ → List α}
  {rooms : ρ → Room}

/-- What every register holds. -/
def HoldAll (regs : ρ → Sequence α n) (lists : ρ → List α) (rooms : ρ → Room) : Prop :=
  ∀ r, (regs r).Holds (lists r) (rooms r)

theorem holdAll_empty :
    HoldAll (fun _ : ρ => (empty : Sequence α n)) (fun _ => []) fun _ => .inline :=
  fun _ => holds_empty

/-! ## Steps on registers -/

/-- A step on sequences in registers. -/
inductive Step (ρ : Type) (α : Type u) where
  | edit (r : ρ) (e : Edit α)
  | swap (r q : ρ) (distinct : r ≠ q)
  /-- Puts a copy of what is in `r` into `q`. -/
  | clone (r q : ρ)
  /-- Puts a new sequence into `r`, of elements of which at least `expected` are promised
  beforehand. -/
  | collect (r : ρ) (expected : Nat) (xs : List α)

/-- A step that puts another sequence into the register. -/
def Step.Replaces (r : ρ) : Step ρ α → Prop
  | .clone _ q => r = q
  | .collect q _ _ => r = q
  | .edit .. | .swap .. => False

variable [DecidableEq ρ]

/-- The answer of a step, and the registers after it. -/
def Step.perform (regs : ρ → Sequence α n) :
    Step ρ α → Option (Answer α × (ρ → Sequence α n))
  | .edit r e => do
    let (answer, s) ← e.run (regs r)
    return (answer, Function.update regs r s)
  | .swap r q _ => do
    let (s, t) ← (regs r).swap (regs q)
    return (.ok none, Function.update (Function.update regs r s) q t)
  | .clone r q => do
    let s ← (regs r).copy
    return (.ok none, Function.update regs q s)
  | .collect r expected xs => do
    let s ← Sequence.collect expected xs
    return (.ok none, Function.update regs r s)

/-- The registers after a history. -/
def run (regs : ρ → Sequence α n) (steps : List (Step ρ α)) : Option (ρ → Sequence α n) :=
  steps.foldlM (fun regs st => (st.perform regs).map Prod.snd) regs

/-! ## The same on plain lists -/

/-- Why a step is refused, if it is. -/
def Step.refusal? (lists : ρ → List α) : Step ρ α → Option Error
  | .edit r e => e.refusal? (lists r).length
  | .swap .. | .clone .. | .collect .. => none

/-- The answer of a step on lists in registers, and the lists after it. -/
def Step.onLists (lists : ρ → List α) : Step ρ α → Answer α × (ρ → List α)
  | .edit r e =>
    ((e.onList (lists r)).1, Function.update lists r (e.onList (lists r)).2)
  | .swap r q _ => (.ok none, Function.update (Function.update lists r (lists q)) q (lists r))
  | .clone r q => (.ok none, Function.update lists q (lists r))
  | .collect r _ xs => (.ok none, Function.update lists r xs)

/-- The lists after a history. -/
def listsFrom (lists : ρ → List α) (steps : List (Step ρ α)) : ρ → List α :=
  steps.foldl (fun lists st => (st.onLists lists).2) lists

/-- The lists after a history from registers that are all empty. -/
def listsAfter (steps : List (Step ρ α)) : ρ → List α := listsFrom (fun _ => []) steps

theorem listsAfter_concat (steps : List (Step ρ α)) (st : Step ρ α) :
    listsAfter (steps ++ [st]) = (st.onLists (listsAfter steps)).2 :=
  List.foldl_concat ..

/-- A step fails exactly if it is refused. -/
theorem Step.fst_onLists_eq_error_iff (lists : ρ → List α) (st : Step ρ α) (err : Error) :
    (st.onLists lists).1 = .error err ↔ st.refusal? lists = some err := by
  cases st with
  | edit r e => exact e.fst_onList_eq_error_iff err
  | swap | clone | collect => exact ⟨nofun, nofun⟩

/-! ## What one step does -/

theorem HoldAll.update (h : HoldAll regs lists rooms) (r : ρ) {s : Sequence α n} {xs : List α}
    {room : Room} (hs : s.Holds xs room) :
    HoldAll (Function.update regs r s) (Function.update lists r xs)
      (Function.update rooms r room) := by
  intro q
  by_cases hq : q = r
  · subst hq
    simpa only [Function.update_self] using hs
  · simpa only [Function.update_of_ne hq] using h q

/-- The rooms after a step. -/
def Step.onRooms (n : Nat) (lists : ρ → List α) (rooms : ρ → Room) : Step ρ α → ρ → Room
  | .edit r e => Function.update rooms r (e.onRoom n (lists r) (rooms r))
  | .swap r q _ =>
    let traded := Holds.swapRooms n (lists r) (lists q) (rooms r) (rooms q)
    Function.update (Function.update rooms r traded.1) q traded.2
  | .clone r q =>
    let fresh := Room.inline.reserve n (lists r).length
    Function.update rooms q (fresh.forPushes n 0 (lists r).length)
  | .collect r expected xs =>
    let fresh := Room.inline.reserve n (min expected maxCapacity)
    Function.update rooms r (fresh.forPushes n 0 xs.length)

/-- What was on the heap still is, unless it was replaced. -/
theorem Step.onRooms_ne_inline (st : Step ρ α) {k : ρ} (hk : ¬ st.Replaces k)
    (hroom : rooms k ≠ .inline) : st.onRooms n lists rooms k ≠ .inline := by
  cases st with
  | edit r e =>
    by_cases hkr : k = r
    · subst hkr
      rw [onRooms, Function.update_self]
      exact e.onRoom_ne_inline hroom
    · rwa [onRooms, Function.update_of_ne hkr]
  | swap r q hne =>
    by_cases hkq : k = q
    · subst hkq
      rw [onRooms, Function.update_self]
      exact Holds.swapRooms_ne_inline.2 hroom
    · rw [onRooms, Function.update_of_ne hkq]
      by_cases hkr : k = r
      · subst hkr
        rw [Function.update_self]
        exact Holds.swapRooms_ne_inline.1 hroom
      · rwa [Function.update_of_ne hkr]
  | clone r q | collect q expected xs => rwa [onRooms, Function.update_of_ne hk]

/-- A step does to what the registers hold what it does to lists, in the rooms that it makes.
If it fails, nothing has changed. -/
theorem Step.secures_perform_rooms (h : HoldAll regs lists rooms) (st : Step ρ α) :
    Secures (∀ r, ((st.onLists lists).2 r).length ≤ maxCapacity) (st.perform regs) fun p =>
      p.1 = (st.onLists lists).1 ∧ (∀ err, p.1 = .error err → p.2 = regs) ∧
        HoldAll p.2 (st.onLists lists).2 (st.onRooms n lists rooms) := by
  cases st with
  | edit r e =>
    have hedit := e.secures_run (h r)
    refine (hedit.of_imp fun hmax => ?_).bind ?_
    · have hr := hmax r
      simpa only [onLists, Function.update_self] using hr
    · rintro ⟨answer, s⟩ ⟨hanswer, hs, hkept⟩
      refine Secures.of_some ⟨hanswer, fun err he => ?_, h.update r hs⟩
      have hsame : s = regs r := hkept err he
      show Function.update regs r s = regs
      rw [hsame, Function.update_eq_self]
  | swap r q hne =>
    have hswap := (h r).secures_swap (h q)
    refine (hswap.of_imp fun hmax => ?_).bind ?_
    · have hr := hmax r
      have hq := hmax q
      simp only [onLists, Function.update_self, Function.update_of_ne hne] at hr hq
      exact ⟨hq, hr⟩
    · rintro ⟨s, t⟩ ⟨hs, ht⟩
      exact Secures.of_some ⟨rfl, nofun, (h.update r hs).update q ht⟩
  | clone r q =>
    refine ((h r).secures_copy.of_imp fun hmax => ?_).bind fun s hs => ?_
    · have hq := hmax q
      simpa only [onLists, Function.update_self] using hq
    · exact Secures.of_some ⟨rfl, nofun, h.update q hs⟩
  | collect r expected xs =>
    have hcollect := (holds_empty (α := α) (n := n)).secures_extend expected xs
    rw [List.length_nil, Nat.zero_add, Nat.zero_add] at hcollect
    refine (hcollect.of_imp fun hmax => ?_).bind fun s hs => ?_
    · have hr := hmax r
      simpa only [onLists, Function.update_self] using hr
    · exact Secures.of_some ⟨rfl, nofun, h.update r hs⟩

/-- A step does to what the registers hold what it does to lists. If it fails, nothing has
changed; and what was on the heap still is, unless it was replaced. -/
theorem Step.secures_perform (h : HoldAll regs lists rooms) (st : Step ρ α) :
    Secures (∀ r, ((st.onLists lists).2 r).length ≤ maxCapacity) (st.perform regs) fun p =>
      p.1 = (st.onLists lists).1 ∧ (∀ err, p.1 = .error err → p.2 = regs) ∧
        ∃ rooms', HoldAll p.2 (st.onLists lists).2 rooms' ∧
          ∀ r, ¬ st.Replaces r → rooms r ≠ .inline → rooms' r ≠ .inline := by
  refine (st.secures_perform_rooms h).mono ?_
  rintro p ⟨hanswer, hkept, h'⟩
  exact ⟨hanswer, hkept, _, h', fun _ => st.onRooms_ne_inline⟩

/-! ## What a history has led to -/

/-- The rooms after a history. -/
def roomsFrom (n : Nat) (lists : ρ → List α) (rooms : ρ → Room) : List (Step ρ α) → ρ → Room
  | [] => rooms
  | st :: steps => roomsFrom n (st.onLists lists).2 (st.onRooms n lists rooms) steps

theorem roomsFrom_ne_inline (steps : List (Step ρ α)) {r : ρ}
    (hkept : ∀ st ∈ steps, ¬ st.Replaces r) (hroom : rooms r ≠ .inline) :
    roomsFrom n lists rooms steps r ≠ .inline := by
  induction steps generalizing lists rooms with
  | nil => exact hroom
  | cons st steps ih =>
    apply ih
    · intro st' hst'
      exact hkept st' (List.mem_cons_of_mem st hst')
    · exact st.onRooms_ne_inline (hkept st List.mem_cons_self) hroom

/-- A history does to what the registers hold what it does to lists, in the rooms that it
makes, if no list ever grows longer than there can be slots. -/
theorem secures_run_rooms (h : HoldAll regs lists rooms) (steps : List (Step ρ α)) :
    Secures (∀ earlier, earlier <+: steps → ∀ r, (listsFrom lists earlier r).length ≤ maxCapacity)
      (run regs steps) fun regs' =>
        HoldAll regs' (listsFrom lists steps) (roomsFrom n lists rooms steps) := by
  induction steps generalizing regs lists rooms with
  | nil => exact Secures.of_some h
  | cons st steps ih =>
    have hstep : Secures (∀ r, ((st.onLists lists).2 r).length ≤ maxCapacity)
        ((st.perform regs).map Prod.snd) fun regs₁ =>
          HoldAll regs₁ (st.onLists lists).2 (st.onRooms n lists rooms) :=
      (st.secures_perform_rooms h).map fun _ hp => hp.2.2
    refine (hstep.of_imp fun hmax => ?_).bind fun regs₁ h₁ => ?_
    · exact hmax [st] (List.prefix_append [st] steps)
    · refine (ih h₁).of_imp fun hmax earlier hearlier => ?_
      exact hmax (st :: earlier) ((List.prefix_cons_inj st).2 hearlier)

/-- A history does to what the registers hold what it does to lists, if no list ever grows
longer than there can be slots. -/
theorem secures_run (h : HoldAll regs lists rooms) (steps : List (Step ρ α)) :
    Secures (∀ earlier, earlier <+: steps → ∀ r, (listsFrom lists earlier r).length ≤ maxCapacity)
      (run regs steps) fun regs' =>
        ∃ rooms', HoldAll regs' (listsFrom lists steps) rooms' ∧
          ∀ r, (∀ st ∈ steps, ¬ st.Replaces r) → rooms r ≠ .inline → rooms' r ≠ .inline :=
  (secures_run_rooms h steps).mono fun _ h' => ⟨_, h', fun _ => roomsFrom_ne_inline steps⟩

/-- At any moment of a history, the lists are what is read back from the registers, and the
next step answers and does what it does on lists. It fails exactly if it is refused, and then
every register is what it was. -/
theorem perform_asOnLists (steps : List (Step ρ α)) (next : Step ρ α)
    (hmax : ∀ earlier, earlier <+: steps ++ [next] →
      ∀ r, (listsAfter earlier r).length ≤ maxCapacity) :
    ∃ (regs regs' : ρ → Sequence α n) (answer : Answer α),
      run (fun _ => empty) steps = some regs ∧
      next.perform regs = some (answer, regs') ∧
      (∀ r, (regs r).toList? = some (listsAfter steps r)) ∧
      (∀ r, (regs' r).toList? = some (listsAfter (steps ++ [next]) r)) ∧
      answer = (next.onLists (listsAfter steps)).1 ∧
      (∀ err, answer = .error err ↔ next.refusal? (listsAfter steps) = some err) ∧
      ∀ err, answer = .error err → regs' = regs := by
  have hsteps : ∀ earlier, earlier <+: steps →
      ∀ r, (listsFrom (fun _ => []) earlier r).length ≤ maxCapacity := by
    intro earlier hearlier
    exact hmax earlier (hearlier.trans (List.prefix_append steps [next]))
  have hnext : ∀ r, ((next.onLists (listsAfter steps)).2 r).length ≤ maxCapacity := by
    rw [← listsAfter_concat]
    exact hmax _ (List.prefix_refl _)
  obtain ⟨regs, hrun, rooms, h, -⟩ :=
    (secures_run (holdAll_empty (α := α) (n := n)) steps).exists_eq hsteps
  obtain ⟨⟨answer, regs'⟩, hperform, hanswer, hkept, rooms', h', -⟩ :=
    (next.secures_perform h).exists_eq hnext
  refine ⟨regs, regs', answer, hrun, hperform, ?_, ?_, hanswer, ?_, hkept⟩
  · intro r
    exact (h r).toList?
  · intro r
    rw [listsAfter_concat]
    exact (h' r).toList?
  · intro err
    rw [show answer = (next.onLists (listsAfter steps)).1 from hanswer]
    exact next.fst_onLists_eq_error_iff (listsAfter steps) err

/-- Two elements spill out of one inline slot, are exchanged with an empty sequence and get a
third between them; there is nothing at position 5 to take out, and nothing happens. -/
theorem perform_asOnLists_spilled :
    ∃ (regs regs' : Bool → Sequence Nat 1) (answer : Answer Nat),
      run (fun _ => empty) [.edit true (.push 1), .edit true (.push 2),
        .swap true false (by decide), .edit false (.insert 1 7)] = some regs ∧
      (Step.edit false (.remove 5)).perform regs = some (answer, regs') ∧
      (regs false).toList? = some [1, 7, 2] ∧
      answer = .error (.indexOutOfRange 5 3) ∧
      regs' = regs := by
  have hmax : ∀ earlier ∈ ([.edit true (.push 1), .edit true (.push 2),
      .swap true false (by decide), .edit false (.insert 1 7)] ++
        [.edit false (.remove 5)] : List (Step Bool Nat)).inits,
      ∀ r, (listsAfter earlier r).length ≤ maxCapacity := by decide
  obtain ⟨regs, regs', answer, hrun, hperform, hlists, -, hanswer, -, hkept⟩ :=
    perform_asOnLists (n := 1) _ _ fun earlier hearlier =>
      hmax earlier ((List.mem_inits _ _).2 hearlier)
  exact ⟨regs, regs', answer, hrun, hperform, hlists false, hanswer, hkept _ hanswer⟩

/-- At any moment of a history, there is room for what there is, and inline it is room for
`n`. Whatever follows, a sequence on the heap stays there until it is replaced.

And the next step has a result, if it leaves no list longer than there can be slots. An access
to a slot that its buffer does not have would leave it without one (`Buffer.isSome_write?_iff`,
`Buffer.isSome_copy?_iff`); so every slot that the step writes is below the capacity at that
moment. -/
theorem run_keepsToRoom (steps : List (Step ρ α)) (regs : ρ → Sequence α n)
    (hrun : run (fun _ => empty) steps = some regs) :
    (∀ r, (regs r).length ≤ (regs r).capacity ∧
      ((regs r).isInline = true → (regs r).capacity = n)) ∧
    (∀ later regs', run regs later = some regs' →
      ∀ r, (∀ st ∈ later, ¬ st.Replaces r) →
        (regs r).isInline = false → (regs' r).isInline = false) ∧
    ∀ next : Step ρ α, (∀ r, (listsAfter (steps ++ [next]) r).length ≤ maxCapacity) →
      ∃ answer regs', next.perform regs = some (answer, regs') := by
  obtain ⟨rooms, h, -⟩ := (secures_run holdAll_empty steps).sound regs hrun
  refine ⟨fun r => ⟨?_, fun hinline => ?_⟩, fun later regs' hlater r hkept hheap => ?_,
    fun next hmax => ?_⟩
  · rw [(h r).length, (h r).capacity]
    exact (h r).fits
  · have hroom : rooms r = .inline := (h r).isInline_iff.1 hinline
    rw [(h r).capacity, hroom]
    rfl
  · obtain ⟨rooms', h', hstays⟩ := (secures_run h later).sound regs' hlater
    have hroom : rooms r ≠ .inline := by
      intro hroom
      rw [(h r).isInline_iff.2 hroom] at hheap
      exact nomatch hheap
    have hroom' : rooms' r ≠ .inline := hstays r hkept hroom
    rw [← (h' r).isInline_iff.ne, ne_eq, Bool.not_eq_true] at hroom'
    exact hroom'
  · rw [listsAfter_concat] at hmax
    obtain ⟨⟨answer, regs'⟩, hperform⟩ := (next.secures_perform h).result hmax
    exact ⟨answer, regs', hperform⟩

/-- A sequence that a second element has moved to the heap stays there when it is cleared and
fitted, and the next push finds room. -/
theorem run_keepsToRoom_cleared :
    ∃ regs regs' : Bool → Sequence Nat 1,
      run (fun _ => empty) [.edit true (.push 1), .edit true (.push 2)] = some regs ∧
      run regs [.edit true .clear, .edit true .shrinkToFit] = some regs' ∧
      (regs true).length ≤ (regs true).capacity ∧
      (regs' true).isInline = false ∧
      ∃ answer regs'', (Step.edit true (.push 3)).perform regs = some (answer, regs'') := by
  have hruns : (run (n := 1) (fun _ : Bool => empty)
      [.edit true (.push 1), .edit true (.push 2)]).isSome = true := by decide
  obtain ⟨regs, hrun⟩ := Option.isSome_iff_exists.1 hruns
  have hheap : (run (n := 1) (fun _ => empty) [.edit true (.push 1), .edit true (.push 2)]).map
      (fun regs => (regs true).isInline) = some false := by decide
  have hlater : ((run (n := 1) (fun _ => empty) [.edit true (.push 1), .edit true (.push 2)]).bind
      fun regs => run regs [.edit true .clear, .edit true .shrinkToFit]).isSome = true := by decide
  rw [hrun] at hheap hlater
  obtain ⟨regs', hlater⟩ := Option.isSome_iff_exists.1 hlater
  have hkeeps := run_keepsToRoom _ regs hrun
  refine ⟨regs, regs', hrun, hlater, (hkeeps.1 true).1, ?_, ?_⟩
  · exact hkeeps.2.1 _ regs' hlater true (by simp [Step.Replaces]) (Option.some.inj hheap)
  · exact hkeeps.2.2 _ (by decide)

end DeclAtlas.Sequence
