import DeclAtlas.Proofs.Atlas
import Mathlib.Data.List.Induction

/-!
# First mentions

What a registry knows is told by the names that it was asked to enter, in the order of first
mention: these are its keys, whatever else was looked up or changed in between. So a name is
found exactly when it was mentioned, always under the number of its first mention, and only
that mention makes an entry.

An atlas is two registries side by side. Any history of calls on it falls apart into the
calls on its structures and those on its types, and either registry has seen its own only.

## Main results

* `Call.keys_run`, `keys_runAll`: one call enters the name it mentions, if it is new, and a
  history enters its mentions.
* `Numbered.of_keys`: what the keys of a registry tell of it.
* `Atlas.runAll_numbersMentions`: both registries of an atlas after any history.
-/

universe u v

namespace DeclAtlas

namespace Registry

variable {μ : Type u} {α : Type v} {r : Registry μ α} {names : List String}

/-! ## Calls on one registry -/

/-- A call on a registry. Changes may be of any kind, also of what a value has for a name. -/
inductive Call (μ : Type u) (α : Type v) where
  | find (name : String)
  | get (name : String)
  | getOrInsert (name : String)
  | edit (h : Handle μ) (f : α → α)

/-- The name that a call asks to enter. -/
def Call.mention? : Call μ α → Option String
  | .get name | .getOrInsert name => some name
  | .find _ | .edit .. => none

/-- The registry after a call; an entry for `name` starts as `fresh name`. -/
def Call.run (fresh : String → α) (r : Registry μ α) : Call μ α → Registry μ α
  | .find _ => r
  | .get name | .getOrInsert name => (r.enter name (fresh name)).2.2
  | .edit h f => r.modify h f

/-- The registry after a history of calls. -/
def runAll (fresh : String → α) (r : Registry μ α) (calls : List (Call μ α)) :
    Registry μ α :=
  calls.foldl (Call.run fresh) r

/-- The names that a history mentions, each once, in the order of first mention. -/
def mentions (calls : List (Call μ α)) : List String :=
  (calls.filterMap Call.mention?).eraseDups

private theorem eraseDups_concat (names : List String) (name : String) :
    (names ++ [name]).eraseDups =
      if name ∈ names.eraseDups then names.eraseDups else names.eraseDups ++ [name] := by
  rw [List.eraseDups_append, List.removeAll, List.filter_cons, List.filter_nil]
  by_cases hm : name ∈ names
  · simp [hm]
  · simp [hm, List.eraseDups_cons]

/-- One more call adds the name it mentions, if that is new. -/
theorem mentions_concat (calls : List (Call μ α)) (c : Call μ α) :
    mentions (calls ++ [c]) = match c.mention? with
      | none => mentions calls
      | some name =>
        if name ∈ mentions calls then mentions calls else mentions calls ++ [name] := by
  unfold mentions
  cases hc : c.mention? with
  | none => simp [hc]
  | some name => simp only [List.filterMap_append, List.filterMap_cons, hc,
      List.filterMap_nil, eraseDups_concat]

/-- A call enters the name it mentions, if that is new, and does nothing else to the keys. -/
theorem Call.keys_run (fresh : String → α) (r : Registry μ α) (c : Call μ α) :
    (c.run fresh r).keys = match c.mention? with
      | none => r.keys
      | some name => if name ∈ r.keys then r.keys else r.keys ++ [name] := by
  cases c with
  | find name => rfl
  | get name => exact keys_enter ..
  | getOrInsert name => exact keys_enter ..
  | edit h f => exact keys_modify ..

theorem Call.grows_run (fresh : String → α) (r : Registry μ α) (c : Call μ α) :
    r.Grows (c.run fresh r) := by
  cases c with
  | find name => exact .refl r
  | get name => exact .enter ..
  | getOrInsert name => exact .enter ..
  | edit h f => exact .modify ..

theorem grows_runAll (fresh : String → α) (r : Registry μ α) (calls : List (Call μ α)) :
    r.Grows (r.runAll fresh calls) := by
  induction calls generalizing r with
  | nil => exact .refl r
  | cons c calls ih => exact (c.grows_run fresh r).trans (ih _)

/-- The keys are what was mentioned. -/
theorem keys_runAll (fresh : String → α) (id : ArenaId) (calls : List (Call μ α)) :
    ((Registry.empty id).runAll fresh calls).keys = mentions calls := by
  induction calls using List.reverseRecOn with
  | nil => rfl
  | append_singleton calls c ih =>
    unfold runAll at ih ⊢
    rw [List.foldl_concat, Call.keys_run, ih, mentions_concat]

theorem nodup_keys_runAll (fresh : String → α) (hn : r.keys.Nodup)
    (calls : List (Call μ α)) : (r.runAll fresh calls).keys.Nodup := by
  induction calls generalizing r with
  | nil => exact hn
  | cons c calls ih =>
    apply ih
    cases c with
    | find name => exact hn
    | get name => exact nodup_keys_enter hn ..
    | getOrInsert name => exact nodup_keys_enter hn ..
    | edit h f => exact hn

/-! ## What the names tell -/

/-- A registry in which `names`, and no others, have been entered, in this order. -/
structure Numbered (r : Registry μ α) (names : List String) : Prop where
  nodup : names.Nodup
  /-- A name is found exactly if it is one of them. -/
  found : ∀ n, (r.find n).isNull = false ↔ n ∈ names
  /-- The handle of a name is its number. -/
  number : ∀ i n, names[i]? = some n → r.find n = .entry r.arena.id i
  /-- What is found names an entry. -/
  resolves : ∀ n ∈ names, (r.get? (r.find n)).isSome = true
  distinct : ∀ m ∈ names, ∀ n ∈ names, r.find m = r.find n → m = n
  /-- Entering a name makes an entry exactly if it is none of them. -/
  created : ∀ n fresh, (r.enter n fresh).2.1 = true ↔ n ∉ names
  /-- Entering a name that is one of them yields what is found. -/
  entered : ∀ n ∈ names, ∀ fresh, (r.enter n fresh).1 = r.find n
  /-- Entering a name that is none of them yields the next number. -/
  next : ∀ n, n ∉ names → ∀ fresh, (r.enter n fresh).1 = .entry r.arena.id names.length
  size : r.size = names.length

/-- The keys of a registry, none of them twice, are all there is to tell. -/
theorem Numbered.of_keys (hn : r.keys.Nodup) : r.Numbered r.keys where
  nodup := hn
  found := isNull_find_eq_false_iff r
  number i n hi := by
    obtain ⟨hlt, rfl⟩ := List.getElem?_eq_some_iff.1 hi
    rw [find_of_mem (List.getElem_mem hlt), hn.idxOf_getElem i hlt]
  resolves n hm := isSome_get?_find hm
  distinct m hm n _ he := find_inj hm he
  created n fresh := by
    rw [created_enter]
    exact isNull_find_iff r n
  entered n hm fresh := by rw [enter_of_mem hm]
  next n hm fresh := enter_fst_of_not_mem hm fresh
  size := (length_keys r).symm

theorem numbered_runAll (fresh : String → α) (id : ArenaId) (calls : List (Call μ α)) :
    ((Registry.empty id).runAll fresh calls).Numbered (mentions calls) := by
  have hn : ((Registry.empty id).runAll fresh calls).keys.Nodup :=
    nodup_keys_runAll fresh (show (Registry.empty id : Registry μ α).keys.Nodup from
      List.nodup_nil) calls
  have hnum := Numbered.of_keys hn
  rwa [keys_runAll] at hnum

end Registry

namespace Atlas

/-! ## Calls on an atlas -/

/-- A call on an atlas, on its structures or on its types. -/
inductive Call where
  | onStructures (c : Registry.Call StructureMark Structure)
  | onTypes (c : Registry.Call TypeMark TypeEntry)

/-- The atlas after a call. -/
def Call.run (a : Atlas) : Call → Atlas
  | .onStructures (.find _) | .onTypes (.find _) => a
  | .onStructures (.get name) | .onStructures (.getOrInsert name) =>
    (a.enterStructure name).2.2
  | .onStructures (.edit h f) => a.modifyStructure h f
  | .onTypes (.get name) | .onTypes (.getOrInsert name) => (a.enterType name).2.2
  | .onTypes (.edit h f) => a.modifyType h f

/-- The atlas after a history of calls. -/
def runAll (a : Atlas) (calls : List Call) : Atlas := calls.foldl Call.run a

/-- The calls on structures among those of a history. -/
def structureCalls (calls : List Call) : List (Registry.Call StructureMark Structure) :=
  calls.filterMap fun
    | .onStructures c => some c
    | .onTypes _ => none

/-- The calls on types among those of a history. -/
def typeCalls (calls : List Call) : List (Registry.Call TypeMark TypeEntry) :=
  calls.filterMap fun
    | .onStructures _ => none
    | .onTypes c => some c

/-- The structures have seen the calls on structures only. -/
theorem structures_runAll (a : Atlas) (calls : List Call) :
    (a.runAll calls).structures =
      a.structures.runAll (fun n => { qualifiedName := n }) (structureCalls calls) := by
  induction calls generalizing a with
  | nil => rfl
  | cons c calls ih =>
    refine (ih _).trans ?_
    rcases c with c | c
    · cases c <;> rfl
    · cases c <;> rfl

/-- The types have seen the calls on types only. -/
theorem types_runAll (a : Atlas) (calls : List Call) :
    (a.runAll calls).types =
      a.types.runAll (fun n => { qualifiedName := n }) (typeCalls calls) := by
  induction calls generalizing a with
  | nil => rfl
  | cons c calls ih =>
    refine (ih _).trans ?_
    rcases c with c | c
    · cases c <;> rfl
    · cases c <;> rfl

theorem runAll_append (a : Atlas) (calls more : List Call) :
    a.runAll (calls ++ more) = (a.runAll calls).runAll more :=
  List.foldl_append

theorem grows_runAll (a : Atlas) (calls : List Call) : a.Grows (a.runAll calls) := by
  constructor
  · rw [structures_runAll]
    exact Registry.grows_runAll ..
  · rw [types_runAll]
    exact Registry.grows_runAll ..

/-- After any history of calls, both registries of an atlas are numbered by what the calls
on them have mentioned and have seen no other calls; and whatever calls follow, every name
that was mentioned is found under the same handle. -/
theorem runAll_numbersMentions (id : ArenaId) (calls more : List Call) :
    let a := (Atlas.empty id).runAll calls
    let later := (Atlas.empty id).runAll (calls ++ more)
    a.structures.Numbered (Registry.mentions (structureCalls calls)) ∧
    a.types.Numbered (Registry.mentions (typeCalls calls)) ∧
    (∀ n ∈ Registry.mentions (structureCalls calls), later.findStructure n = a.findStructure n) ∧
    (∀ n ∈ Registry.mentions (typeCalls calls), later.findType n = a.findType n) ∧
    a.structures = (Registry.empty id).runAll (fun n => { qualifiedName := n })
      (structureCalls calls) ∧
    a.types = (Registry.empty id).runAll (fun n => { qualifiedName := n })
      (typeCalls calls) := by
  intro a later
  have hs : a.structures = (Registry.empty id).runAll (fun n => { qualifiedName := n })
      (structureCalls calls) := structures_runAll ..
  have ht : a.types = (Registry.empty id).runAll (fun n => { qualifiedName := n })
      (typeCalls calls) := types_runAll ..
  have hgrows : a.Grows later := by
    change a.Grows ((Atlas.empty id).runAll (calls ++ more))
    rw [runAll_append]
    exact grows_runAll ..
  refine ⟨?_, ?_, ?_, ?_, hs, ht⟩
  · rw [hs]
    exact Registry.numbered_runAll ..
  · rw [ht]
    exact Registry.numbered_runAll ..
  · intro n hn
    apply hgrows.findStructure
    rw [hs, Registry.keys_runAll]
    exact hn
  · intro n hn
    apply hgrows.findType
    rw [ht, Registry.keys_runAll]
    exact hn

/-- What a structure is renamed to does not count, neither does what a type is called. -/
theorem runAll_numbersMentions_renamed :
    let a := (Atlas.empty ⟨1⟩).runAll [.onStructures (.get "A"),
      .onStructures (.edit (.entry ⟨1⟩ 0) fun s => { s with qualifiedName := "B" }),
      .onTypes (.get "C"), .onStructures (.getOrInsert "B")]
    a.structures.find "A" = .entry a.structures.arena.id 0 ∧
      a.structures.find "B" = .entry a.structures.arena.id 1 ∧
      a.structures.size = 2 ∧ (a.structures.find "C").isNull = true ∧ a.types.size = 1 := by
  intro a
  obtain ⟨hs, ht, -⟩ := runAll_numbersMentions ⟨1⟩ [.onStructures (.get "A"),
    .onStructures (.edit (.entry ⟨1⟩ 0) fun s => { s with qualifiedName := "B" }),
    .onTypes (.get "C"), .onStructures (.getOrInsert "B")] []
  have hunknown : ¬ (a.structures.find "C").isNull = false := by
    rw [hs.found]
    decide
  exact ⟨hs.number 0 "A" rfl, hs.number 1 "B" rfl, hs.size, by simpa using hunknown, ht.size⟩

end Atlas

end DeclAtlas
