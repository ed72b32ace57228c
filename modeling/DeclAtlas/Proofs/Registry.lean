import DeclAtlas.Atlas
import Mathlib.Data.List.Nodup

/-!
# Registries as growing lists of keys

Where a registry finds a key depends on nothing but its arena and the order of its keys.
Entering appends a key that is not there yet, and changing a value leaves the keys alone;
so a handle that was found once is found for ever, and names a value for ever.

Everything else about a registry is said with `Holds`: a handle names a value that was
entered under a key. One lemma tells what each operation does to it.

## Main results

* `find_eq`: a key is found at its place among the keys.
* `holds_enter`, `holds_modify`: what is held after an operation.
* `Grows.find`, `Grows.isSome_get?`: what was found or named stays so.
* `Grows.finds`: so does a handle that was looked up once and stored.
-/

universe u v

namespace DeclAtlas.Registry

variable {μ : Type u} {α : Type v} {r r' r'' : Registry μ α} {h : Handle μ}
  {k key : String} {v : α}

/-- The keys in the order of first mention. -/
def keys (r : Registry μ α) : List String := r.index.map Prod.fst

/-- The handle `h` names the value `v`, which was entered under `k`. -/
def Holds (r : Registry μ α) (h : Handle μ) (k : String) (v : α) : Prop :=
  ∃ i, h = .entry r.arena.id i ∧ r.keys[i]? = some k ∧ r.arena.items[i]? = some v

theorem length_keys (r : Registry μ α) : r.keys.length = r.arena.size := by
  have hlen := congrArg List.length r.aligned
  rw [List.length_map, List.length_range] at hlen
  rw [keys, List.length_map, hlen]

/-! ## Looking up -/

/-- An index whose positions count up tells the place of each key among the keys. -/
theorem lookup_of_counting (k : String) (index : List (String × Nat)) (start : Nat)
    (hcount : index.map Prod.snd = List.range' start index.length) :
    index.lookup k =
      if k ∈ index.map Prod.fst then some (start + (index.map Prod.fst).idxOf k) else none := by
  induction index generalizing start with
  | nil => rfl
  | cons e rest ih =>
      obtain ⟨key, i⟩ := e
      rw [List.map_cons, List.length_cons, List.range'_succ, List.cons.injEq] at hcount
      obtain ⟨rfl, hrest⟩ := hcount
      by_cases hk : k = key
      · subst hk
        simp
      · have hne : (k == key) = false := by simpa using hk
        have hne' : (key == k) = false := by simpa using fun he => hk he.symm
        rw [List.lookup_cons, hne, ih _ hrest]
        simp only [List.map_cons, List.mem_cons, hk, false_or, List.idxOf_cons, hne', cond_false]
        congr 2
        omega

theorem lookup_index (r : Registry μ α) (k : String) :
    r.index.lookup k = if k ∈ r.keys then some (r.keys.idxOf k) else none := by
  have hcount : r.index.map Prod.snd = List.range' 0 r.index.length := by
    rw [r.aligned, ← length_keys, keys, List.length_map, List.range_eq_range']
  rw [lookup_of_counting k r.index 0 hcount, Nat.zero_add]
  rfl

/-- A key is found at its place among the keys. -/
theorem find_eq (r : Registry μ α) (k : String) :
    r.find k = if k ∈ r.keys then .entry r.arena.id (r.keys.idxOf k) else .null := by
  have hlook := lookup_index r k
  by_cases hk : k ∈ r.keys
  · rw [if_pos hk] at hlook
    rw [if_pos hk, find_of_lookup hlook]
  · rw [if_neg hk] at hlook
    rw [if_neg hk, find, hlook]
    rfl

theorem find_of_mem (hk : k ∈ r.keys) : r.find k = .entry r.arena.id (r.keys.idxOf k) := by
  rw [find_eq, if_pos hk]

theorem isNull_find_iff (r : Registry μ α) (k : String) :
    (r.find k).isNull = true ↔ k ∉ r.keys := by
  rw [find_eq]
  by_cases hk : k ∈ r.keys
  · rw [if_pos hk]
    exact ⟨fun hn => absurd hn (by simp [Handle.isNull]), fun hn => absurd hk hn⟩
  · rw [if_neg hk]
    exact ⟨fun _ => hk, fun _ => rfl⟩

theorem isNull_find_eq_false_iff (r : Registry μ α) (k : String) :
    (r.find k).isNull = false ↔ k ∈ r.keys := by
  rw [← Bool.not_eq_true, isNull_find_iff, not_not]

/-- Different keys are found under different handles. -/
theorem find_inj (hk : k ∈ r.keys) (he : r.find k = r.find key) : k = key := by
  by_cases hkey : key ∈ r.keys
  · rw [find_of_mem hk, find_of_mem hkey] at he
    exact (List.idxOf_inj hk).1 (Handle.entry.inj he).2
  · rw [find_of_mem hk, find_eq, if_neg hkey] at he
    exact nomatch he

/-! ## What a handle names -/

theorem get?_entry (r : Registry μ α) (i : Nat) :
    r.get? (.entry r.arena.id i) = r.arena.items[i]? :=
  if_pos rfl

/-- A position that has a value has a key. -/
theorem exists_key {i : Nat} (hi : r.arena.items[i]? = some v) :
    ∃ k, r.keys[i]? = some k := by
  have hlt : i < r.keys.length := by
    rw [length_keys]
    exact (List.getElem?_eq_some_iff.1 hi).1
  exact ⟨r.keys[i], List.getElem?_eq_getElem hlt⟩

theorem get?_eq_some_iff : r.get? h = some v ↔ ∃ k, r.Holds h k v := by
  constructor
  · intro hv
    cases h with
    | null => exact nomatch hv
    | entry id i =>
        by_cases hid : id = r.arena.id
        · subst hid
          rw [get?_entry] at hv
          obtain ⟨k, hk⟩ := exists_key hv
          exact ⟨k, i, rfl, hk, hv⟩
        · have hnone : r.get? (.entry id i) = none := if_neg hid
          rw [hnone] at hv
          exact nomatch hv
  · rintro ⟨k, i, rfl, -, hv⟩
    rw [get?_entry, hv]

theorem isSome_get?_iff (r : Registry μ α) (h : Handle μ) :
    (r.get? h).isSome = true ↔ ∃ i, h = .entry r.arena.id i ∧ i < r.keys.length := by
  rw [Option.isSome_iff_exists]
  constructor
  · rintro ⟨v, hv⟩
    obtain ⟨k, i, rfl, hk, -⟩ := get?_eq_some_iff.1 hv
    exact ⟨i, rfl, (List.getElem?_eq_some_iff.1 hk).1⟩
  · rintro ⟨i, rfl, hi⟩
    rw [length_keys] at hi
    exact ⟨_, (get?_entry r i).trans (List.getElem?_eq_getElem hi)⟩

theorem Holds.unique {k' : String} {v' : α} (hv : r.Holds h k v) (hv' : r.Holds h k' v') :
    k = k' ∧ v = v' := by
  obtain ⟨i, rfl, hk, hi⟩ := hv
  obtain ⟨i', he, hk', hi'⟩ := hv'
  obtain rfl := (Handle.entry.inj he).2
  exact ⟨Option.some.inj (hk.symm.trans hk'), Option.some.inj (hi.symm.trans hi')⟩

theorem Holds.mem_keys (hv : r.Holds h k v) : k ∈ r.keys := by
  obtain ⟨i, -, hk, -⟩ := hv
  exact List.mem_of_getElem? hk

theorem Holds.isSome (hv : r.Holds h k v) : (r.get? h).isSome = true := by
  rw [get?_eq_some_iff.2 ⟨k, hv⟩]
  rfl

/-- Where no key occurs twice, a value is found under its key. -/
theorem Holds.find (hn : r.keys.Nodup) (hv : r.Holds h k v) : r.find k = h := by
  have hmem := hv.mem_keys
  obtain ⟨i, rfl, hk, -⟩ := hv
  obtain ⟨hlt, hget⟩ := List.getElem?_eq_some_iff.1 hk
  rw [find_of_mem hmem, ← hget, hn.idxOf_getElem i hlt]

theorem exists_holds_find (hk : k ∈ r.keys) : ∃ v, r.Holds (r.find k) k v := by
  have hlt : r.keys.idxOf k < r.arena.items.length := by
    have hidx := List.idxOf_lt_length_iff.2 hk
    rwa [length_keys] at hidx
  exact ⟨_, _, find_of_mem hk, List.getElem?_idxOf hk, List.getElem?_eq_getElem hlt⟩

theorem isSome_get?_find (hk : k ∈ r.keys) : (r.get? (r.find k)).isSome = true := by
  obtain ⟨v, hv⟩ := exists_holds_find hk
  exact hv.isSome

/-- What is found under a key was entered under it. -/
theorem holds_of_get?_find (hv : r.get? (r.find k) = some v) : r.Holds (r.find k) k v := by
  obtain ⟨k', hv'⟩ := get?_eq_some_iff.1 hv
  by_cases hk : k ∈ r.keys
  · obtain ⟨w, hw⟩ := exists_holds_find hk
    obtain ⟨rfl, -⟩ := hv'.unique hw
    exact hv'
  · rw [find_eq, if_neg hk] at hv'
    exact nomatch hv'

/-- Where each value has its key as its name, the names are the keys. -/
theorem map_values_eq_keys {name : α → String}
    (hname : ∀ ⦃h k v⦄, r.Holds h k v → name v = k) : r.values.map name = r.keys := by
  apply List.ext_getElem?
  intro i
  rw [List.getElem?_map]
  cases hi : r.arena.items[i]? with
  | none =>
      have hge : r.keys.length ≤ i := by
        rw [length_keys]
        exact List.getElem?_eq_none_iff.1 hi
      rw [List.getElem?_eq_none hge, values, hi]
      rfl
  | some v =>
      obtain ⟨k, hk⟩ := exists_key hi
      rw [hk, values, hi]
      exact congrArg some (hname ⟨i, rfl, hk, hi⟩)

/-! ## Changing a value -/

@[simp] theorem id_modify (r : Registry μ α) (h : Handle μ) (f : α → α) :
    (r.modify h f).arena.id = r.arena.id :=
  Arena.id_modify ..

@[simp] theorem keys_modify (r : Registry μ α) (h : Handle μ) (f : α → α) :
    (r.modify h f).keys = r.keys := rfl

/-- A change reaches the value at the position of its handle, and no other. -/
theorem items_modify (r : Registry μ α) (h : Handle μ) (f : α → α) (i : Nat) :
    (r.modify h f).arena.items[i]? =
      r.arena.items[i]?.map fun w => if Handle.entry r.arena.id i = h then f w else w := by
  have hself := Arena.get?_modify_self r.arena (.entry r.arena.id i) f
  rw [← get?_entry, id_modify, ← get?_entry r i]
  by_cases hh : Handle.entry r.arena.id i = h
  · subst hh
    simpa [get?, modify] using hself
  · have hother := Arena.get?_modify_of_ne (a := r.arena) f (Ne.symm hh)
    simpa [get?, modify, hh] using hother

@[simp] theorem find_modify (r : Registry μ α) (h : Handle μ) (f : α → α) (k : String) :
    (r.modify h f).find k = r.find k := by
  rw [find_eq, find_eq, keys_modify, id_modify]

/-- A change reaches the value of its handle only, and no key. -/
theorem holds_modify {h₀ : Handle μ} {f : α → α} :
    (r.modify h₀ f).Holds h k v ↔ ∃ w, r.Holds h k w ∧ v = if h = h₀ then f w else w := by
  constructor
  · rintro ⟨i, rfl, hk, hi⟩
    rw [items_modify, Option.map_eq_some_iff] at hi
    obtain ⟨w, hw, rfl⟩ := hi
    exact ⟨w, ⟨i, by rw [id_modify], hk, hw⟩, by rw [id_modify]⟩
  · rintro ⟨w, ⟨i, rfl, hk, hi⟩, rfl⟩
    refine ⟨i, by rw [id_modify], hk, ?_⟩
    rw [items_modify, hi]
    rfl

theorem Holds.modify_of_ne {h₀ : Handle μ} {f : α → α} (hv : r.Holds h k v) (hne : h ≠ h₀) :
    (r.modify h₀ f).Holds h k v :=
  holds_modify.2 ⟨v, hv, by rw [if_neg hne]⟩

theorem Holds.modify_self {f : α → α} (hv : r.Holds h k v) :
    (r.modify h f).Holds h k (f v) :=
  holds_modify.2 ⟨v, hv, by rw [if_pos rfl]⟩

/-! ## Entering a key -/

theorem enter_of_mem (hk : key ∈ r.keys) (fresh : α) :
    r.enter key fresh = (r.find key, false, r) :=
  enter_of_found ((isNull_find_eq_false_iff r key).2 hk) fresh

/-- A new key is given the position after the last. -/
theorem enter_fst_of_not_mem (hk : key ∉ r.keys) (fresh : α) :
    (r.enter key fresh).1 = .entry r.arena.id r.keys.length := by
  unfold enter
  rw [if_pos ((isNull_find_iff r key).2 hk), length_keys]
  rfl

/-- A new key adds its fresh value to the others. -/
theorem arena_enter_of_not_mem (hk : key ∉ r.keys) (fresh : α) :
    (r.enter key fresh).2.2.arena = (r.arena.push fresh).2 := by
  unfold enter
  rw [if_pos ((isNull_find_iff r key).2 hk)]

/-- Entering makes an entry exactly when the key is not there yet. -/
theorem created_enter (r : Registry μ α) (key : String) (fresh : α) :
    (r.enter key fresh).2.1 = (r.find key).isNull := by
  unfold enter
  split
  · rename_i hnull
    exact hnull.symm
  · rename_i hnull
    simpa using hnull

@[simp] theorem id_enter (r : Registry μ α) (key : String) (fresh : α) :
    (r.enter key fresh).2.2.arena.id = r.arena.id := by
  by_cases hk : key ∈ r.keys
  · rw [enter_of_mem hk]
  · rw [arena_enter_of_not_mem hk, Arena.id_push]

theorem keys_enter (r : Registry μ α) (key : String) (fresh : α) :
    (r.enter key fresh).2.2.keys = if key ∈ r.keys then r.keys else r.keys ++ [key] := by
  by_cases hk : key ∈ r.keys
  · rw [enter_of_mem hk, if_pos hk]
  · rw [if_neg hk, keys, index_enter_of_null ((isNull_find_iff r key).2 hk), List.map_append]
    rfl

theorem mem_keys_enter (r : Registry μ α) (key : String) (fresh : α) :
    key ∈ (r.enter key fresh).2.2.keys := by
  rw [keys_enter]
  by_cases hk : key ∈ r.keys
  · rwa [if_pos hk]
  · rw [if_neg hk]
    simp

theorem nodup_keys_enter (hn : r.keys.Nodup) (key : String) (fresh : α) :
    (r.enter key fresh).2.2.keys.Nodup := by
  rw [keys_enter]
  by_cases hk : key ∈ r.keys
  · rwa [if_pos hk]
  · rw [if_neg hk]
    exact List.nodup_append.2 ⟨hn, List.nodup_singleton key, fun a ha b hb he =>
      hk (List.mem_singleton.1 hb ▸ he ▸ ha)⟩

/-- What was held is held, and a new key holds the fresh value. -/
theorem holds_enter {fresh : α} :
    (r.enter key fresh).2.2.Holds h k v ↔
      r.Holds h k v ∨
        (key ∉ r.keys ∧ h = (r.enter key fresh).1 ∧ k = key ∧ v = fresh) := by
  by_cases hk : key ∈ r.keys
  · simp [enter_of_mem hk, hk]
  · have hkeys : (r.enter key fresh).2.2.keys = r.keys ++ [key] := by
      rw [keys_enter, if_neg hk]
    have hitems : (r.enter key fresh).2.2.arena.items = r.arena.items ++ [fresh] := by
      rw [arena_enter_of_not_mem hk]
      rfl
    have hlen : r.arena.items.length = r.keys.length := (length_keys r).symm
    unfold Holds
    rw [hkeys, hitems, id_enter, enter_fst_of_not_mem hk]
    constructor
    · rintro ⟨i, rfl, hki, hi⟩
      rcases Nat.lt_or_ge i r.keys.length with hlt | hge
      · rw [List.getElem?_append_left hlt] at hki
        rw [List.getElem?_append_left (hlen ▸ hlt)] at hi
        exact Or.inl ⟨i, rfl, hki, hi⟩
      · rw [List.getElem?_append_right hge, List.getElem?_singleton] at hki
        rw [List.getElem?_append_right (hlen ▸ hge), hlen, List.getElem?_singleton] at hi
        by_cases hlast : i - r.keys.length = 0
        · rw [if_pos hlast] at hki hi
          have hi' : i = r.keys.length := by omega
          exact Or.inr ⟨hk, by rw [hi'], (Option.some.inj hki).symm, (Option.some.inj hi).symm⟩
        · rw [if_neg hlast] at hki
          exact nomatch hki
    · rintro (⟨i, rfl, hki, hi⟩ | ⟨-, rfl, rfl, rfl⟩)
      · have hlt := (List.getElem?_eq_some_iff.1 hki).1
        refine ⟨i, rfl, ?_, ?_⟩
        · rw [List.getElem?_append_left hlt, hki]
        · rw [List.getElem?_append_left (hlen ▸ hlt), hi]
      · refine ⟨r.keys.length, rfl, ?_, ?_⟩
        · simp
        · simp [← hlen]

theorem Holds.enter (hv : r.Holds h k v) (key : String) (fresh : α) :
    (r.enter key fresh).2.2.Holds h k v :=
  holds_enter.2 (Or.inl hv)

theorem holds_enter_self (hk : key ∉ r.keys) (fresh : α) :
    (r.enter key fresh).2.2.Holds (r.enter key fresh).1 key fresh :=
  holds_enter.2 (Or.inr ⟨hk, rfl, rfl, rfl⟩)

/-- A handle that names something is not the one of an entry yet to be made. -/
theorem Holds.ne_enter (hv : r.Holds h k v) (hk : key ∉ r.keys) (fresh : α) :
    h ≠ (r.enter key fresh).1 := by
  obtain ⟨i, rfl, hki, -⟩ := hv
  have hlt := (List.getElem?_eq_some_iff.1 hki).1
  rw [enter_fst_of_not_mem hk]
  intro he
  have hidx := (Handle.entry.inj he).2
  omega

/-! ## Growing -/

/-- One registry has come of another by entering keys and changing values. -/
structure Grows (r r' : Registry μ α) : Prop where
  id : r'.arena.id = r.arena.id
  keys : r.keys <+: r'.keys

namespace Grows

theorem refl (r : Registry μ α) : r.Grows r := ⟨rfl, List.prefix_refl _⟩

theorem trans (h₁ : r.Grows r') (h₂ : r'.Grows r'') : r.Grows r'' :=
  ⟨h₂.id.trans h₁.id, h₁.keys.trans h₂.keys⟩

theorem modify (r : Registry μ α) (h : Handle μ) (f : α → α) : r.Grows (r.modify h f) := by
  have hkeys : (r.modify h f).keys = r.keys := keys_modify ..
  exact ⟨id_modify .., hkeys ▸ List.prefix_refl _⟩

theorem enter (r : Registry μ α) (key : String) (fresh : α) :
    r.Grows (r.enter key fresh).2.2 := by
  refine ⟨id_enter .., ?_⟩
  rw [keys_enter]
  split
  · exact List.prefix_refl _
  · exact List.prefix_append _ _

theorem mem (hg : r.Grows r') (hk : k ∈ r.keys) : k ∈ r'.keys := hg.keys.mem hk

/-- What was found is found under the same handle. -/
theorem find (hg : r.Grows r') (hk : k ∈ r.keys) : r'.find k = r.find k := by
  rw [find_of_mem hk, find_of_mem (hg.mem hk), hg.id, hg.keys.idxOf_eq_of_mem hk]

/-- What named something does so still. -/
theorem isSome_get? (hg : r.Grows r') (hs : (r.get? h).isSome = true) :
    (r'.get? h).isSome = true := by
  obtain ⟨i, rfl, hi⟩ := (isSome_get?_iff r h).1 hs
  refine (isSome_get?_iff r' _).2 ⟨i, by rw [hg.id], ?_⟩
  exact Nat.lt_of_lt_of_le hi hg.keys.length_le

end Grows

/-- A name that is given is found under `h`; without a name, `h` is null. -/
def Finds (r : Registry μ α) (k? : Option String) (h : Handle μ) : Prop :=
  match k? with
  | some k => k ∈ r.keys ∧ h = r.find k
  | none => h = .null

theorem Grows.finds {k? : Option String} (hg : r.Grows r') (hf : r.Finds k? h) :
    r'.Finds k? h := by
  cases k? with
  | none => exact hf
  | some k => exact ⟨hg.mem hf.1, hf.2.trans (hg.find hf.1).symm⟩

theorem Finds.eq_null_or_isSome {k? : Option String} (hf : r.Finds k? h) :
    h = .null ∨ (r.get? h).isSome = true := by
  cases k? with
  | none => exact Or.inl hf
  | some k => exact Or.inr (hf.2 ▸ isSome_get?_find hf.1)

end DeclAtlas.Registry
