import DeclAtlas.Proofs.Store
import Mathlib.Data.List.Nodup

/-!
# Stable handles

Several stores for values of one kind get their identifiers from one supply, which also
serves stores for other values. It has handed out different ones as long as they are fewer
than there are words. So a handle that a store has given out is good on that store only, and
there for ever: it leads to the value that was pushed, or to what was last written through
it.

A history is acts one after another. Its state has no result only where a push has found no
room, which takes more values than there can be slots.

## Main results

* `Stores.Sound.secures_run`: what one act preserves, and what it makes of every store.
* `Stores.Sound.secures_runAll`: what a history does.
* `Stores.handles_stable`: what handles lead to after any history.
-/

universe u v

namespace DeclAtlas

variable {μ : Type u} {α : Type v}

/-! ## Acts on stores -/

/-- Stores in the order of their creation, and the supply that names them. -/
structure Stores (μ : Type u) (α : Type v) where
  supply : ArenaSupply := {}
  all : List (Store μ α) := []

namespace Stores

/-- An act on stores, which are counted from 0. -/
inductive Act (μ : Type u) (α : Type v) where
  | create (inlineCapacity : Nat)
  /-- Creates a store for values of another kind. -/
  | createOther
  | push (s : Nat) (x : α)
  /-- Writes `y` where `h` leads to on the store, if it leads anywhere. -/
  | write (s : Nat) (h : Handle μ) (y : α)

/-- Changes one store, if it is there. -/
def change (w : Stores μ α) (s : Nat) (f : Store μ α → Option (Store μ α)) :
    Option (Stores μ α) :=
  match w.all[s]? with
  | none => some w
  | some store => (f store).map fun store' => { w with all := w.all.set s store' }

/-- The store with `y` written where `h` leads to, if it leads anywhere. -/
def overwrite (store : Store μ α) (h : Handle μ) (y : α) : Option (Store μ α) :=
  match store.get? h with
  | none => some store
  | some _ => store.modify? h fun _ => y

/-- The stores after an act. -/
def Act.run (w : Stores μ α) : Act μ α → Option (Stores μ α)
  | .create n =>
    some ⟨w.supply.fresh.2, w.all ++ [.empty n w.supply.fresh.1]⟩
  | .createOther => some { w with supply := w.supply.fresh.2 }
  | .push s x => w.change s fun store => (store.push x).map Prod.snd
  | .write s h y => w.change s fun store => overwrite store h y

/-- The stores after a history. -/
def runAll (w : Stores μ α) (acts : List (Act μ α)) : Option (Stores μ α) :=
  acts.foldlM Act.run w

/-- Does the act create a store? -/
def Act.creates : Act μ α → Bool
  | .create _ | .createOther => true
  | .push .. | .write .. => false

/-- Does the act push to the store? -/
def Act.pushesTo (s : Nat) : Act μ α → Bool
  | .push t _ => t = s
  | .create _ | .createOther | .write .. => false

/-- What was `x` after an act, where `h` leads to on the store. -/
def Act.written (s : Nat) (h : Handle μ) (x : α) : Act μ α → α
  | .write t k y => if t = s ∧ k = h then y else x
  | .create _ | .createOther | .push .. => x

/-- How many stores a history creates. -/
def creations (acts : List (Act μ α)) : Nat := acts.countP Act.creates

/-- How many values a history pushes to the store. -/
def pushes (s : Nat) (acts : List (Act μ α)) : Nat := acts.countP (Act.pushesTo s)

/-- What was last written through `h` on the store, or `x` if nothing was. -/
def lastWritten (s : Nat) (h : Handle μ) (x : α) (acts : List (Act μ α)) : α :=
  acts.foldl (Act.written s h) x

theorem creations_append (acts more : List (Act μ α)) :
    creations (acts ++ more) = creations acts + creations more :=
  List.countP_append

theorem pushes_append (s : Nat) (acts more : List (Act μ α)) :
    pushes s (acts ++ more) = pushes s acts + pushes s more :=
  List.countP_append

/-! ## What acts make of one store -/

/-- What a history makes of a store. -/
structure Follows (acts : List (Act μ α)) (s : Nat) (store store' : Store μ α) : Prop where
  id : store'.id = store.id
  size : store'.size = store.size + pushes s acts
  /-- What a handle leads to, it leads to for ever, up to what is written through it. -/
  get? : ∀ h x, store.get? h = some x → store'.get? h = some (lastWritten s h x acts)

variable {w w' : Stores μ α} {store store' store'' : Store μ α} {acts more : List (Act μ α)}
  {act : Act μ α} {s created : Nat} {c : Prop}

/-- An act that is not about the store leaves it as it is. -/
theorem Follows.refl (hpush : pushes s acts = 0)
    (hwrite : ∀ h x, store.get? h = some x → lastWritten s h x acts = x) :
    Follows acts s store store where
  id := rfl
  size := by rw [hpush, Nat.add_zero]
  get? h x hx := by rw [hwrite h x hx, hx]

theorem Follows.trans (h : Follows acts s store store') (h' : Follows more s store' store'') :
    Follows (acts ++ more) s store store'' where
  id := h'.id.trans h.id
  size := by rw [h'.size, h.size, pushes_append, Nat.add_assoc]
  get? k x hx := by
    unfold lastWritten
    rw [List.foldl_append]
    exact h'.get? k _ (h.get? k x hx)

theorem secures_push {a : Arena μ α} (hs : store.Keeps a) (s : Nat) (x : α) :
    Secures (store.size < maxCapacity) ((store.push x).map Prod.snd) fun store' =>
      (∃ a', store'.Keeps a') ∧ Follows [.push s x] s store store' := by
  rw [hs.size]
  refine (hs.secures_push x).map ?_
  rintro ⟨h, store'⟩ ⟨-, hkeeps⟩
  refine ⟨⟨_, hkeeps⟩, hkeeps.id.trans hs.id.symm, ?_, fun k y hy => ?_⟩
  · rw [hkeeps.size, Arena.size_push, hs.size]
    simp [pushes, Act.pushesTo]
  · rw [hs.get?] at hy
    rw [hkeeps.get?]
    exact Arena.get?_push_of_get? x hy

theorem secures_overwrite {a : Arena μ α} (hs : store.Keeps a) (s : Nat) (h : Handle μ) (y : α) :
    Secures c (overwrite store h y) fun store' =>
      (∃ a', store'.Keeps a') ∧ Follows [.write s h y] s store store' := by
  unfold overwrite
  cases hx : store.get? h with
  | none =>
    refine Secures.of_some ⟨⟨a, hs⟩, Follows.refl rfl fun k z hz => ?_⟩
    have hne : h ≠ k := by
      rintro rfl
      rw [hx] at hz
      exact nomatch hz
    simp [lastWritten, Act.written, hne]
  | some x =>
    rw [hs.get?] at hx
    refine (hs.secures_modify? hx fun _ => y).mono fun store' hkeeps => ?_
    refine ⟨⟨_, hkeeps⟩, ?_, ?_, fun k z hz => ?_⟩
    · rw [hkeeps.id, Arena.id_modify, hs.id]
    · rw [hkeeps.size, Arena.size_modify, hs.size]
      rfl
    · rw [hs.get?] at hz
      rw [hkeeps.get?]
      by_cases hk : h = k
      · subst hk
        rw [Arena.get?_modify_self, hz]
        simp [lastWritten, Act.written]
      · rw [Arena.get?_modify_of_ne _ hk, hz]
        simp [lastWritten, Act.written, hk]

/-! ## What acts make of all stores -/

/-- The size of a store, 0 while it is not there. -/
def sizeAt (w : Stores μ α) (s : Nat) : Nat := (w.all[s]?).elim 0 Store.size

/-- What a history makes of the stores. -/
structure Leads (acts : List (Act μ α)) (w w' : Stores μ α) : Prop where
  existing : ∀ s store, w.all[s]? = some store →
    ∃ store', w'.all[s]? = some store' ∧ Follows acts s store store'
  sizeAt_le : ∀ s, w'.sizeAt s ≤ w.sizeAt s + pushes s acts

theorem Leads.refl (w : Stores μ α) : w.Leads [] w where
  existing _ store hs := ⟨store, hs, .refl rfl fun _ _ _ => rfl⟩
  sizeAt_le _ := Nat.le_refl _

theorem Leads.trans {w'' : Stores μ α} (h : w.Leads acts w') (h' : w'.Leads more w'') :
    w.Leads (acts ++ more) w'' where
  existing s store hs := by
    obtain ⟨store', hs', hfollows⟩ := h.existing s store hs
    obtain ⟨store'', hs'', hfollows'⟩ := h'.existing s store' hs'
    exact ⟨store'', hs'', hfollows.trans hfollows'⟩
  sizeAt_le s := by
    have hle := h.sizeAt_le s
    have hle' := h'.sizeAt_le s
    rw [pushes_append]
    omega

/-- The stores have different identifiers, and each keeps an arena. The supply has named
`created` stores by now, these and others. -/
structure Sound (w : Stores μ α) (created : Nat) : Prop where
  /-- The supply starts over when it has handed out every word but 0. -/
  supply : w.supply.next = (created + 1) % Word.count 64
  numbered : ∀ store ∈ w.all, store.id.number ≤ created
  distinct : (w.all.map Store.id).Nodup
  kept : ∀ store ∈ w.all, ∃ a, store.Keeps a

theorem sound_empty : ({} : Stores μ α).Sound 0 where
  supply := (Nat.mod_eq_of_lt (show 1 < Word.count 64 by decide)).symm
  numbered := nofun
  distinct := List.nodup_nil
  kept := nofun

/-- The supply hands out the number of stores created by then. -/
theorem Sound.fresh_eq (hw : w.Sound created) (hcreated : created + 1 < Word.count 64) :
    w.supply.fresh = (⟨created + 1⟩, ⟨(created + 2) % Word.count 64⟩) := by
  have hnext : w.supply.next = created + 1 := by
    rw [hw.supply, Nat.mod_eq_of_lt hcreated]
  unfold ArenaSupply.fresh
  rw [hnext]
  rfl

theorem Sound.createOther (hw : w.Sound created) (hcreated : created + 1 < Word.count 64) :
    ({ w with supply := w.supply.fresh.2 } : Stores μ α).Sound (created + 1) where
  supply := by rw [hw.fresh_eq hcreated]
  numbered store hs := Nat.le_succ_of_le (hw.numbered store hs)
  distinct := hw.distinct
  kept := hw.kept

theorem Sound.create (hw : w.Sound created) (hcreated : created + 1 < Word.count 64) (n : Nat) :
    (⟨w.supply.fresh.2, w.all ++ [.empty n w.supply.fresh.1]⟩ : Stores μ α).Sound
      (created + 1) := by
  rw [hw.fresh_eq hcreated]
  constructor
  · rfl
  · intro store hs
    rcases List.mem_append.1 hs with hs | hs
    · exact Nat.le_succ_of_le (hw.numbered store hs)
    · obtain rfl := List.mem_singleton.1 hs
      exact Nat.le_refl _
  · rw [List.map_append, List.nodup_append]
    refine ⟨hw.distinct, List.nodup_singleton _, ?_⟩
    rintro id hid _ hnew rfl
    obtain ⟨store, hs, rfl⟩ := List.mem_map.1 hid
    have hle := hw.numbered store hs
    rw [List.map_singleton, List.mem_singleton] at hnew
    rw [hnew] at hle
    exact Nat.not_succ_le_self created hle
  · intro store hs
    rcases List.mem_append.1 hs with hs | hs
    · exact hw.kept store hs
    · obtain rfl := List.mem_singleton.1 hs
      exact ⟨_, Store.keeps_empty n _⟩

theorem Sound.set (hw : w.Sound created) (hs : w.all[s]? = some store)
    (hid : store'.id = store.id) (hkept : ∃ a, store'.Keeps a) :
    ({ w with all := w.all.set s store' } : Stores μ α).Sound created where
  supply := hw.supply
  numbered other hother := by
    rcases List.mem_or_eq_of_mem_set hother with hother | rfl
    · exact hw.numbered other hother
    · rw [hid]
      exact hw.numbered store (List.mem_of_getElem? hs)
  distinct := by
    have hids : (w.all.set s store').map Store.id = w.all.map Store.id := by
      apply List.ext_getElem?
      intro t
      rw [List.getElem?_map, List.getElem?_map]
      by_cases ht : t = s
      · subst ht
        rw [List.getElem?_set_self (List.getElem?_eq_some_iff.1 hs).1, hs]
        exact congrArg some hid
      · rw [List.getElem?_set_ne (Ne.symm ht)]
    rw [hids]
    exact hw.distinct
  kept other hother := by
    rcases List.mem_or_eq_of_mem_set hother with hother | rfl
    · exact hw.kept other hother
    · exact hkept

/-- An act that is about no other store, and about this one does as it should. -/
theorem Sound.secures_change (hw : w.Sound created) {f : Store μ α → Option (Store μ α)}
    (hf : ∀ store a, w.all[s]? = some store → store.Keeps a →
      Secures c (f store) fun store' => (∃ a', store'.Keeps a') ∧ Follows [act] s store store')
    (hother : ∀ t, t ≠ s → pushes t [act] = 0 ∧ ∀ h x, lastWritten t h x [act] = x) :
    Secures c (w.change s f) fun w' => w'.Sound created ∧ w.Leads [act] w' := by
  unfold change
  cases hs : w.all[s]? with
  | none =>
    refine Secures.of_some ⟨hw, fun t store ht => ?_, fun t => Nat.le_add_right _ _⟩
    have hne : t ≠ s := by
      rintro rfl
      rw [hs] at ht
      exact nomatch ht
    obtain ⟨hpush, hwrite⟩ := hother t hne
    exact ⟨store, ht, .refl hpush fun h x _ => hwrite h x⟩
  | some store =>
    obtain ⟨a, ha⟩ := hw.kept store (List.mem_of_getElem? hs)
    refine (hf store a hs ha).map ?_
    rintro store' ⟨hkept, hfollows⟩
    have hlt : s < w.all.length := (List.getElem?_eq_some_iff.1 hs).1
    refine ⟨hw.set hs hfollows.id hkept, fun t other ht => ?_, fun t => ?_⟩
    · by_cases hts : t = s
      · subst hts
        rw [hs] at ht
        obtain rfl := Option.some.inj ht
        exact ⟨store', List.getElem?_set_self hlt, hfollows⟩
      · obtain ⟨hpush, hwrite⟩ := hother t hts
        refine ⟨other, ?_, .refl hpush fun h x _ => hwrite h x⟩
        rw [List.getElem?_set_ne (Ne.symm hts), ht]
    · by_cases hts : t = s
      · subst hts
        unfold sizeAt
        rw [List.getElem?_set_self hlt, hs]
        exact Nat.le_of_eq hfollows.size
      · unfold sizeAt
        rw [List.getElem?_set_ne (Ne.symm hts)]
        exact Nat.le_add_right _ _

/-- One act has a result if the push that it may be finds room, and keeps the stores sound. -/
theorem Sound.secures_run (hw : w.Sound created) (act : Act μ α)
    (hcreated : created + creations [act] < Word.count 64) :
    Secures (∀ s, w.sizeAt s + pushes s [act] ≤ maxCapacity) (act.run w) fun w' =>
      w'.Sound (created + creations [act]) ∧ w.Leads [act] w' := by
  cases act with
  | create n =>
    refine Secures.of_some ⟨hw.create hcreated n, fun s store hs => ?_, fun s => ?_⟩
    · have hlt : s < w.all.length := (List.getElem?_eq_some_iff.1 hs).1
      refine ⟨store, ?_, .refl rfl fun _ _ _ => rfl⟩
      rw [List.getElem?_append_left hlt, hs]
    · unfold sizeAt
      rw [List.getElem?_append]
      split
      · exact Nat.le_add_right _ _
      · -- What is there beyond the old stores is the new one, without values.
        rcases Nat.eq_zero_or_pos (s - w.all.length) with hnew | hbeyond
        · rw [hnew]
          exact Nat.zero_le _
        · rw [List.getElem?_eq_none (by rw [List.length_singleton]; omega)]
          exact Nat.zero_le _
  | createOther =>
    refine Secures.of_some ⟨hw.createOther hcreated, fun s store hs => ?_, fun s => ?_⟩
    · exact ⟨store, hs, .refl rfl fun _ _ _ => rfl⟩
    · exact Nat.le_add_right _ _
  | push s x =>
    refine hw.secures_change (fun store a hs ha => ?_) fun t hts => ⟨?_, fun _ _ => rfl⟩
    · refine (secures_push ha s x).of_imp fun hmax => ?_
      have hroom := hmax s
      rw [sizeAt, hs] at hroom
      simp [pushes, Act.pushesTo] at hroom
      omega
    · simp [pushes, Act.pushesTo, Ne.symm hts]
  | write s h y =>
    refine hw.secures_change (fun store a hs ha => secures_overwrite ha s h y) fun t hts =>
      ⟨rfl, fun k x => ?_⟩
    simp [lastWritten, Act.written, Ne.symm hts]

/-- A history has a result if every store has room for what is pushed to it. -/
theorem Sound.secures_runAll (hw : w.Sound created) (acts : List (Act μ α))
    (hcreated : created + creations acts < Word.count 64) :
    Secures (∀ s, w.sizeAt s + pushes s acts ≤ maxCapacity) (w.runAll acts) fun w' =>
      w'.Sound (created + creations acts) ∧ w.Leads acts w' := by
  induction acts generalizing w created with
  | nil => exact Secures.of_some ⟨hw, .refl w⟩
  | cons act acts ih =>
    have hcreations : creations (act :: acts) = creations [act] + creations acts :=
      creations_append [act] acts
    have hpushes : ∀ s, pushes s (act :: acts) = pushes s [act] + pushes s acts :=
      fun s => pushes_append s [act] acts
    rw [hcreations, ← Nat.add_assoc] at hcreated ⊢
    have hact := hw.secures_run act (by omega)
    refine (hact.of_imp fun hmax s => ?_).bind ?_
    · have hle := hmax s
      rw [hpushes] at hle
      omega
    · rintro w₁ ⟨hw₁, hleads₁⟩
      refine ((ih hw₁ hcreated).of_imp fun hmax s => ?_).mono ?_
      · have hle := hmax s
        have hgrown := hleads₁.sizeAt_le s
        rw [hpushes] at hle
        omega
      · rintro w₂ ⟨hw₂, hleads₂⟩
        exact ⟨hw₂, hleads₁.trans hleads₂⟩

/-! ## What handles lead to -/

/-- What `h` leads to on the store, if that is there. -/
def get? (w : Stores μ α) (s : Nat) (h : Handle μ) : Option α :=
  (w.all[s]?).bind fun store => store.get? h

/-- The store gives out `h` for its value at position `i`. -/
def Gives (w : Stores μ α) (s i : Nat) (h : Handle μ) : Prop :=
  ∃ store, w.all[s]? = some store ∧ store.handle? i = some h

/-- The handle leads to `x` on the store, and on every other to nothing. -/
def LeadsTo (w : Stores μ α) (s : Nat) (h : Handle μ) (x : α) : Prop :=
  w.get? s h = some x ∧ ∀ t, t ≠ s → w.get? t h = none

theorem get?_of_getElem? (hs : w.all[s]? = some store) (h : Handle μ) :
    w.get? s h = store.get? h := by
  rw [get?, hs, Option.bind_some]

theorem Sound.eq_of_id_eq (hw : w.Sound created) {t : Nat} {other : Store μ α}
    (hs : w.all[s]? = some store) (ht : w.all[t]? = some other) (hid : store.id = other.id) :
    s = t := by
  have hlt : s < (w.all.map Store.id).length := by
    rw [List.length_map]
    exact (List.getElem?_eq_some_iff.1 hs).1
  refine (List.getElem?_inj hlt hw.distinct).1 ?_
  rw [List.getElem?_map, List.getElem?_map, hs, ht]
  exact congrArg some hid

/-- What leads to a value on one store leads to nothing on any other. -/
theorem Sound.leadsTo (hw : w.Sound created) (hs : w.all[s]? = some store) {h : Handle μ} {x : α}
    (hx : store.get? h = some x) : w.LeadsTo s h x := by
  refine ⟨(get?_of_getElem? hs h).trans hx, fun t hts => ?_⟩
  cases ht : w.all[t]? with
  | none => rw [get?, ht, Option.bind_none]
  | some other =>
    rw [get?_of_getElem? ht]
    cases hy : other.get? h with
    | none => rfl
    | some y =>
      have hid : some store.id = some other.id :=
        (Store.arena?_of_get? hx).symm.trans (Store.arena?_of_get? hy)
      exact absurd (hw.eq_of_id_eq hs ht (Option.some.inj hid)).symm hts

theorem Leads.gives (h : w.Leads acts w') {i : Nat} {k : Handle μ} (hk : w.Gives s i k) :
    w'.Gives s i k := by
  obtain ⟨store, hs, hhandle⟩ := hk
  obtain ⟨store', hs', hfollows⟩ := h.existing s store hs
  obtain ⟨hi, rfl⟩ := (store.handle?_eq_some_iff i k).1 hhandle
  refine ⟨store', hs', (store'.handle?_eq_some_iff ..).2 ⟨?_, ?_⟩⟩
  · rw [hfollows.size]
    omega
  · rw [hfollows.id]

/-- What a handle leads to on sound stores, it leads to after any history, up to what was
written through it; and still on no other store. -/
theorem Leads.leadsTo (h : w.Leads acts w') (hw' : w'.Sound created)
    (hs : w.all[s]? = some store) {k : Handle μ} {x : α} (hx : store.get? k = some x) :
    w'.LeadsTo s k (lastWritten s k x acts) := by
  obtain ⟨store', hs', hfollows⟩ := h.existing s store hs
  exact hw'.leadsTo hs' (hfollows.get? k x hx)

/-- Handles tell stores and positions apart. -/
theorem Sound.handle_inj (hw : w.Sound created) {i j t : Nat} {h k : Handle μ}
    (hh : w.Gives s i h) (hk : w.Gives t j k) : h = k ↔ s = t ∧ i = j := by
  obtain ⟨store, hs, hstore⟩ := hh
  obtain ⟨other, ht, hother⟩ := hk
  obtain ⟨-, rfl⟩ := (store.handle?_eq_some_iff i h).1 hstore
  obtain ⟨-, rfl⟩ := (other.handle?_eq_some_iff j k).1 hother
  rw [Handle.entry.injEq]
  constructor
  · rintro ⟨hid, hij⟩
    exact ⟨hw.eq_of_id_eq hs ht hid, hij⟩
  · rintro ⟨rfl, rfl⟩
    rw [hs] at ht
    exact ⟨congrArg Store.id (Option.some.inj ht), rfl⟩

/-- The stores after a push that had room. -/
theorem run_push (hs : w.all[s]? = some store) {x : α} {h : Handle μ}
    (hpush : store.push x = some (h, store')) :
    Act.run w (.push s x) = some { w with all := w.all.set s store' } := by
  simp only [Act.run, change, hs, hpush]
  rfl

/-- The handle of a push leads to the value that was pushed, and after any history to what
was last written through it. -/
theorem Sound.leadsTo_of_push (hw : w.Sound created) (hs : w.all[s]? = some store) {x : α}
    {h : Handle μ} (hpush : store.push x = some (h, store')) {rest : List (Act μ α)}
    (hrun : runAll w (.push s x :: rest) = some w')
    (hcreated : created + creations rest < Word.count 64) :
    w'.Gives s store.size h ∧ w'.LeadsTo s h (lastWritten s h x rest) := by
  obtain ⟨a, ha⟩ := hw.kept store (List.mem_of_getElem? hs)
  obtain ⟨hhandle, hx⟩ := ha.get?_of_push hpush
  have hact : Act.run w (.push s x) = some { w with all := w.all.set s store' } :=
    run_push hs hpush
  obtain ⟨hw₁, -⟩ := (hw.secures_run (.push s x) (by
    have hnone : creations [(.push s x : Act μ α)] = 0 := rfl
    omega)).sound _ hact
  have hs₁ : (w.all.set s store')[s]? = some store' :=
    List.getElem?_set_self (List.getElem?_eq_some_iff.1 hs).1
  have hrest : runAll { w with all := w.all.set s store' } rest = some w' := by
    rw [runAll, List.foldlM_cons, hact] at hrun
    exact hrun
  obtain ⟨hw', hleads⟩ := (hw₁.secures_runAll rest hcreated).sound w' hrest
  exact ⟨hleads.gives ⟨store', hs₁, hhandle⟩, hleads.leadsTo hw' hs₁ hx⟩

/-- After any history that creates fewer stores than there are words, whatever history
follows:

* the handle of a position leads to a value on its store and to nothing on any other, and
  later still, to what was last written through it;
* so does the handle of a push, from the value that was pushed on;
* the null handle leads nowhere;
* two handles are equal exactly if they name the same store and position, and no handle that
  was given out is null.

Both histories have a result if no store has more values pushed to it than there can be
slots. -/
theorem handles_stable (acts later : List (Act μ α))
    (hcreated : creations (acts ++ later) < Word.count 64) :
    ((∀ s, pushes s (acts ++ later) ≤ maxCapacity) →
      ∃ w w', runAll {} acts = some w ∧ runAll w later = some w') ∧
    ∀ w w' : Stores μ α, runAll {} acts = some w → runAll w later = some w' →
      (∀ s store i, w.all[s]? = some store → i < store.size →
        ∃ h x, store.handle? i = some h ∧ w.LeadsTo s h x ∧
          w'.LeadsTo s h (lastWritten s h x later)) ∧
      (∀ s store store' x h rest, later = .push s x :: rest → w.all[s]? = some store →
        store.push x = some (h, store') →
        w'.Gives s store.size h ∧ w'.LeadsTo s h (lastWritten s h x rest)) ∧
      (∀ s, w'.get? s .null = none) ∧
      ∀ s i h t j k, w.Gives s i h → w'.Gives t j k → h ≠ .null ∧ (h = k ↔ s = t ∧ i = j) := by
  rw [creations_append] at hcreated
  constructor
  · intro hmax
    have hall := sound_empty.secures_runAll (acts ++ later) (by rw [creations_append]; omega)
    have hroom : ∀ s, ({} : Stores μ α).sizeAt s + pushes s (acts ++ later) ≤ maxCapacity := by
      intro s
      rw [show ({} : Stores μ α).sizeAt s = 0 from rfl, Nat.zero_add]
      exact hmax s
    obtain ⟨w', hrun, -⟩ := hall.exists_eq hroom
    rw [runAll, List.foldlM_append] at hrun
    obtain ⟨w, hrun, hrun'⟩ := Option.bind_eq_some_iff.1 hrun
    exact ⟨w, w', hrun, hrun'⟩
  · intro w w' hrun hrun'
    obtain ⟨hw, -⟩ := (sound_empty.secures_runAll acts (by omega)).sound w hrun
    obtain ⟨hw', hleads⟩ := (hw.secures_runAll later (by omega)).sound w' hrun'
    refine ⟨?_, ?_, ?_, ?_⟩
    · intro s store i hs hi
      obtain ⟨a, ha⟩ := hw.kept store (List.mem_of_getElem? hs)
      have hh : store.handle? i = some (.entry store.id i) :=
        (store.handle?_eq_some_iff ..).2 ⟨hi, rfl⟩
      obtain ⟨x, hx⟩ := ha.get?_of_handle? hh
      exact ⟨_, x, hh, hw.leadsTo hs hx, hleads.leadsTo hw' hs hx⟩
    · rintro s store store' x h rest rfl hs hpush
      refine hw.leadsTo_of_push hs hpush hrun' ?_
      have hnone : creations (.push s x :: rest) = creations rest := rfl
      omega
    · intro s
      cases hs : w'.all[s]? with
      | none => rw [get?, hs, Option.bind_none]
      | some store =>
        rw [get?_of_getElem? hs]
        rfl
    · intro s i h t j k hh hk
      refine ⟨?_, hw'.handle_inj (hleads.gives hh) hk⟩
      rintro rfl
      obtain ⟨store, -, hnull⟩ := hh
      exact nomatch ((store.handle?_eq_some_iff ..).1 hnull).2

/-- A value is pushed to the first of two stores, a second one moves it to the heap, and it is
overwritten; the other store has no part in it. -/
theorem handles_stable_moved :
    ∃ w w' : Stores Unit Nat,
      runAll {} [.create 1, .createOther, .create 0, .push 0 5] = some w ∧
      runAll w [.push 0 6, .write 0 (.entry ⟨1⟩ 0) 7, .write 1 (.entry ⟨1⟩ 0) 8] = some w' ∧
      w'.LeadsTo 0 (.entry ⟨1⟩ 0) 7 := by
  have hstable := handles_stable (μ := Unit)
    [.create 1, .createOther, .create 0, .push 0 5]
    [.push 0 6, .write 0 (.entry ⟨1⟩ 0) 7, .write 1 (.entry ⟨1⟩ 0) 8] (by decide)
  obtain ⟨w, w', hrun, hrun'⟩ := hstable.1 fun s =>
    Nat.le_trans List.countP_le_length (by decide)
  have hfirst : (runAll {} [.create 1, .createOther, .create 0, .push 0 5]).map
      (fun w : Stores Unit Nat => (w.all[0]?).map fun store => (store.id, store.size)) =
        some (some (⟨1⟩, 1)) := by decide
  rw [hrun, Option.map_some, Option.some.injEq, Option.map_eq_some_iff] at hfirst
  obtain ⟨store, hs, hstore⟩ := hfirst
  obtain ⟨hid, hsize⟩ := Prod.mk.inj hstore
  obtain ⟨h, x, hh, -, hleads⟩ := (hstable.2 w w' hrun hrun').1 0 store 0 hs (by omega)
  obtain ⟨-, rfl⟩ := (store.handle?_eq_some_iff 0 h).1 hh
  rw [hid] at hleads
  exact ⟨w, w', hrun, hrun', hleads⟩

end Stores

end DeclAtlas
