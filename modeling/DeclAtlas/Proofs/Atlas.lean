import DeclAtlas.Proofs.Registry

/-!
# Atlases that grow

Structures and types of an atlas are two registries that never touch each other. An atlas
grows when both of its registries do: then every handle that was found or named something
goes on doing so.

## Main results

* `Grows.enterStructure`, `Grows.enterType`, `Grows.modifyStructure`, `Grows.modifyType`:
  every operation on an atlas makes it grow.
* `AllStructures.refine`, `membersOf_refine_eq`: what becomes of structures when one of them
  is entered and changed, which is all that ever happens to them.
-/

universe u

namespace DeclAtlas.Atlas

variable {a a' a'' : Atlas} {n : String}

/-! ## Each operation is one on a registry -/

@[simp] theorem structures_enterStructure (a : Atlas) (n : String) :
    (a.enterStructure n).2.2.structures =
      (a.structures.enter n { qualifiedName := n }).2.2 := rfl

@[simp] theorem structures_modifyStructure (a : Atlas) (h : StructureHandle)
    (f : Structure → Structure) :
    (a.modifyStructure h f).structures = a.structures.modify h f := rfl

theorem enterStructure_fst (a : Atlas) (n : String) :
    (a.enterStructure n).1 = (a.enterStructure n).2.2.findStructure n :=
  (Registry.find_enter_self ..).symm

theorem enterType_fst (a : Atlas) (n : String) :
    (a.enterType n).1 = (a.enterType n).2.2.findType n :=
  (Registry.find_enter_self ..).symm

theorem enterType_of_mem (hn : n ∈ a.types.keys) :
    a.enterType n = (a.findType n, false, a) := by
  unfold enterType
  rw [Registry.enter_of_mem hn]
  rfl

theorem created_enterType (a : Atlas) (n : String) :
    (a.enterType n).2.1 = (a.findType n).isNull :=
  Registry.created_enter ..

/-! ## Growing -/

/-- One atlas has come of another by entering names and changing entries. -/
structure Grows (a a' : Atlas) : Prop where
  structures : a.structures.Grows a'.structures
  types : a.types.Grows a'.types

namespace Grows

theorem refl (a : Atlas) : a.Grows a := ⟨.refl _, .refl _⟩

theorem trans (h₁ : a.Grows a') (h₂ : a'.Grows a'') : a.Grows a'' :=
  ⟨h₁.structures.trans h₂.structures, h₁.types.trans h₂.types⟩

theorem enterStructure (a : Atlas) (n : String) : a.Grows (a.enterStructure n).2.2 :=
  ⟨.enter .., .refl _⟩

theorem enterType (a : Atlas) (n : String) : a.Grows (a.enterType n).2.2 :=
  ⟨.refl _, .enter ..⟩

theorem modifyStructure (a : Atlas) (h : StructureHandle) (f : Structure → Structure) :
    a.Grows (a.modifyStructure h f) :=
  ⟨.modify .., .refl _⟩

theorem modifyType (a : Atlas) (h : TypeHandle) (f : TypeEntry → TypeEntry) :
    a.Grows (a.modifyType h f) :=
  ⟨.refl _, .modify ..⟩

theorem findType (hg : a.Grows a') (hn : n ∈ a.types.keys) :
    a'.findType n = a.findType n :=
  hg.types.find hn

theorem findStructure (hg : a.Grows a') (hn : n ∈ a.structures.keys) :
    a'.findStructure n = a.findStructure n :=
  hg.structures.find hn

end Grows

/-! ## Entering a structure and changing it -/

/-- The atlas with the structure of a name, entered if need be, changed by `f`. -/
def refine (n : String) (f : Structure → Structure) (a : Atlas) : Atlas :=
  (a.enterStructure n).2.2.modifyStructure (a.enterStructure n).1 f

theorem structures_refine (n : String) (f : Structure → Structure) (a : Atlas) :
    (a.refine n f).structures =
      (a.structures.enter n { qualifiedName := n }).2.2.modify
        ((a.structures.enter n { qualifiedName := n }).2.2.find n) f := by
  rw [Registry.find_enter_self]
  rfl

theorem Grows.refine (n : String) (f : Structure → Structure) (a : Atlas) :
    a.Grows (a.refine n f) :=
  (Grows.enterStructure ..).trans (.modifyStructure ..)

theorem nodup_refine (hn : a.structures.keys.Nodup) (f : Structure → Structure) :
    (a.refine n f).structures.keys.Nodup := by
  rw [structures_refine, Registry.keys_modify]
  exact Registry.nodup_keys_enter hn ..

/-- Every structure and the name it was entered under have the property `Q`. -/
def AllStructures (Q : String → Structure → Prop) (a : Atlas) : Prop :=
  ∀ ⦃h k s⦄, a.structures.Holds h k s → Q k s

theorem AllStructures.enterStructure {Q : String → Structure → Prop}
    (hq : a.AllStructures Q) (hfresh : Q n { qualifiedName := n }) :
    (a.enterStructure n).2.2.AllStructures Q := by
  intro h k s hs
  rcases Registry.holds_enter.1 hs with hs | ⟨-, -, rfl, rfl⟩
  · exact hq hs
  · exact hfresh

theorem AllStructures.modifyStructure {Q : String → Structure → Prop} {h : StructureHandle}
    {f : Structure → Structure} (hq : a.AllStructures Q)
    (hf : ∀ k s, a.structures.Holds h k s → Q k s → Q k (f s)) :
    (a.modifyStructure h f).AllStructures Q := by
  intro x k s hs
  obtain ⟨w, hw, rfl⟩ := Registry.holds_modify.1 hs
  by_cases hx : x = h
  · rw [if_pos hx]
    exact hf k w (hx ▸ hw) (hq hw)
  · rw [if_neg hx]
    exact hq hw

theorem AllStructures.refine {Q : String → Structure → Prop} {f : Structure → Structure}
    (hq : a.AllStructures Q) (hfresh : Q n { qualifiedName := n })
    (hf : ∀ s, Q n s → Q n (f s)) : (a.refine n f).AllStructures Q := by
  refine (hq.enterStructure hfresh).modifyStructure fun k s hs hqs => ?_
  -- The handle of `n` holds what was entered under `n` and nothing else.
  rw [enterStructure_fst] at hs
  have hmem : n ∈ (a.enterStructure n).2.2.structures.keys := Registry.mem_keys_enter ..
  obtain ⟨s', hs'⟩ := Registry.exists_holds_find hmem
  obtain ⟨rfl, -⟩ := hs.unique hs'
  exact hf s hqs

/-- Every type entry and the name it was entered under have the property `Q`. -/
def AllTypes (Q : String → TypeEntry → Prop) (a : Atlas) : Prop :=
  ∀ ⦃h k e⦄, a.types.Holds h k e → Q k e

theorem AllTypes.modifyType {Q : String → TypeEntry → Prop} {h : TypeHandle}
    {f : TypeEntry → TypeEntry} (hq : a.AllTypes Q)
    (hf : ∀ k e, a.types.Holds h k e → Q k e → Q k (f e)) : (a.modifyType h f).AllTypes Q := by
  intro x k e he
  obtain ⟨w, hw, rfl⟩ := Registry.holds_modify.1 he
  by_cases hx : x = h
  · rw [if_pos hx]
    exact hf k w (hx ▸ hw) (hq hw)
  · rw [if_neg hx]
    exact hq hw

/-! ## The members of a structure -/

/-- What `g` lists of the structure entered under a name, nothing if there is none. -/
def membersOf {β : Type u} (g : Structure → List β) (a : Atlas) (n : String) : List β :=
  ((a.structure? (a.findStructure n)).map g).getD []

variable {β : Type u} {g : Structure → List β} {f : Structure → Structure} {m : String}

theorem membersOf_of_not_mem (hn : n ∉ a.structures.keys) : a.membersOf g n = [] := by
  have hnull : a.findStructure n = .null := by
    unfold findStructure
    rw [Registry.find_eq, if_neg hn]
  unfold membersOf
  rw [hnull]
  rfl

theorem membersOf_of_holds {s : Structure}
    (hs : a.structures.Holds (a.findStructure n) n s) : a.membersOf g n = g s := by
  unfold membersOf structure?
  rw [Registry.get?_eq_some_iff.2 ⟨n, hs⟩]
  rfl

/-- Entering a name adds no members anywhere. -/
theorem membersOf_enterStructure (hg : g { qualifiedName := n } = []) :
    (a.enterStructure n).2.2.membersOf g m = a.membersOf g m := by
  by_cases hm : m ∈ a.structures.keys
  · obtain ⟨s, hs⟩ := Registry.exists_holds_find hm
    have hs' : (a.enterStructure n).2.2.structures.Holds
        ((a.enterStructure n).2.2.findStructure m) m s := by
      rw [(Grows.enterStructure a n).findStructure hm]
      exact hs.enter ..
    rw [membersOf_of_holds hs, membersOf_of_holds hs']
  · rw [membersOf_of_not_mem hm]
    by_cases hmn : m = n
    · subst hmn
      have hs : (a.enterStructure m).2.2.structures.Holds
          ((a.enterStructure m).2.2.findStructure m) m { qualifiedName := m } := by
        rw [← enterStructure_fst]
        exact Registry.holds_enter_self hm _
      rw [membersOf_of_holds hs, hg]
    · apply membersOf_of_not_mem
      rw [structures_enterStructure, Registry.keys_enter]
      split
      · exact hm
      · simp [hm, hmn]

/-- A change of one structure changes what is listed of that one only. -/
theorem exists_membersOf_modifyStructure (h : StructureHandle) (f : Structure → Structure)
    (hm : m ∈ a.structures.keys) :
    ∃ s, a.membersOf g m = g s ∧ (a.modifyStructure h f).membersOf g m =
      g (if a.findStructure m = h then f s else s) := by
  have hfind : (a.modifyStructure h f).findStructure m = a.findStructure m :=
    Registry.find_modify ..
  obtain ⟨s, hs⟩ := Registry.exists_holds_find hm
  refine ⟨s, membersOf_of_holds hs, membersOf_of_holds ?_⟩
  rw [hfind]
  exact Registry.holds_modify.2 ⟨s, hs, rfl⟩

theorem membersOf_modifyStructure_of_not_mem (h : StructureHandle)
    (f : Structure → Structure) (hm : m ∉ a.structures.keys) :
    (a.modifyStructure h f).membersOf g m = a.membersOf g m := by
  rw [membersOf_of_not_mem hm]
  apply membersOf_of_not_mem
  rwa [structures_modifyStructure, Registry.keys_modify]

/-- A change of one structure that changes its members by `F` does so there only. -/
theorem membersOf_modifyStructure_eq {F : List β → List β} (hn : n ∈ a.structures.keys)
    (hf : ∀ s, g (f s) = F (g s)) :
    (a.modifyStructure (a.findStructure n) f).membersOf g m =
      if m = n then F (a.membersOf g m) else a.membersOf g m := by
  by_cases hm : m ∈ a.structures.keys
  · obtain ⟨s, hold, hnew⟩ :=
      exists_membersOf_modifyStructure (g := g) (a.findStructure n) f hm
    rw [hold, hnew]
    by_cases hmn : m = n
    · rw [if_pos (congrArg a.findStructure hmn), if_pos hmn, hf]
    · have hne : a.findStructure m ≠ a.findStructure n :=
        fun he => hmn (Registry.find_inj hm he)
      rw [if_neg hne, if_neg hmn]
  · have hmn : ¬ m = n := fun he => hm (he ▸ hn)
    rw [membersOf_modifyStructure_of_not_mem _ _ hm, if_neg hmn]

/-- A change of one structure that leaves its members alone changes none. -/
theorem membersOf_modifyStructure_of_same (h : StructureHandle) (hf : ∀ s, g (f s) = g s) :
    (a.modifyStructure h f).membersOf g m = a.membersOf g m := by
  by_cases hm : m ∈ a.structures.keys
  · obtain ⟨s, hold, hnew⟩ := exists_membersOf_modifyStructure (g := g) h f hm
    rw [hold, hnew]
    split
    · exact hf s
    · rfl
  · exact membersOf_modifyStructure_of_not_mem h f hm

theorem membersOf_refine_eq {F : List β → List β} (hg : g { qualifiedName := n } = [])
    (hf : ∀ s, g (f s) = F (g s)) :
    (a.refine n f).membersOf g m =
      if m = n then F (a.membersOf g m) else a.membersOf g m := by
  unfold refine
  rw [enterStructure_fst, membersOf_modifyStructure_eq (Registry.mem_keys_enter ..) hf,
    membersOf_enterStructure hg]

theorem membersOf_refine_of_same (hg : g { qualifiedName := n } = [])
    (hf : ∀ s, g (f s) = g s) : (a.refine n f).membersOf g m = a.membersOf g m := by
  unfold refine
  rw [membersOf_modifyStructure_of_same _ hf, membersOf_enterStructure hg]

end DeclAtlas.Atlas
