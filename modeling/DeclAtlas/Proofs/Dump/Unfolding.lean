import DeclAtlas.Proofs.Dump.Aliases
import Mathlib.Data.List.Perm.Subperm

/-!
# How far aliases unfold

An alias stands for layers around a core, and the core may be an alias again. Followed from
alias to alias this goes one way only, since an alias has one target; it ends, or it comes
round in a circle. If no circle adds a layer, the aliases are `Grounded`: then what a name
unfolds to has finitely many layers, its `height`.

The layers of a shape and the height of its core together are what all steps from it can ever
take off. Replacing an alias turns height into layers and keeps this sum; going inside a layer
lowers it by one.

What a shape turns into on the way is legible if every name is that its core leads to.

## Main results

* `height_eq`: the height of an alias is that of its target.
* `grounded_iff`: whether aliases are grounded can be computed.
* `extent_substituteAlias`, `extent_inner`: what the steps do to the sum.
* `LegibleIn.substituteAlias`, `LegibleIn.inner`: the steps stay with what is legible.
-/

namespace DeclAtlas.Dump.Source

variable {names : NameTable} {a b c : String} {s t : Shape} {k l n : Nat}

/-! ## Circles -/

/-- Following aliases from one name leads to another and meets some number of layers. -/
inductive Leads (names : NameTable) : String → Nat → String → Prop where
  | refl (a : String) : Leads names a 0 a
  | step {a b c : String} {s : Shape} {k : Nat} (ht : aliasTarget? names a = some s)
      (hn : s.named? = some b) (h : Leads names b k c) : Leads names a (s.dimensions + k) c

/-- No alias leads back to itself through a layer. -/
def Grounded (names : NameTable) : Prop := ∀ a k, Leads names a k a → k = 0

/-- The alias `a` stands for something around a core that leads to `b`. -/
def LeadsOn (names : NameTable) (a b : String) : Prop :=
  ∃ s c k, aliasTarget? names a = some s ∧ s.named? = some c ∧ Leads names c k b

theorem Leads.trans (h : Leads names a k b) (h' : Leads names b l c) :
    Leads names a (k + l) c := by
  induction h with
  | refl a => rwa [Nat.zero_add]
  | step ht hn _ ih =>
      rw [Nat.add_assoc]
      exact .step ht hn (ih h')

theorem Leads.concat (h : Leads names a k b) (ht : aliasTarget? names b = some s)
    (hn : s.named? = some c) : ∃ l, Leads names a l c :=
  ⟨_, h.trans (.step ht hn (.refl c))⟩

theorem LeadsOn.concat (h : LeadsOn names a b) (ht : aliasTarget? names b = some s)
    (hn : s.named? = some c) : LeadsOn names a c := by
  obtain ⟨s', d, k, ht', hn', hl⟩ := h
  obtain ⟨l, hl'⟩ := hl.concat ht hn
  exact ⟨s', d, l, ht', hn', hl'⟩

/-- What comes next on a circle is on it too. -/
theorem LeadsOn.next (h : LeadsOn names a a) (ht : aliasTarget? names a = some s)
    (hn : s.named? = some b) : LeadsOn names b b := by
  obtain ⟨s', c, k, ht', hn', hl⟩ := h
  obtain rfl : s = s' := Option.some.inj (ht.symm.trans ht')
  obtain rfl : b = c := Option.some.inj (hn.symm.trans hn')
  cases hl with
  | refl => exact ⟨s, _, 0, ht, hn, .refl _⟩
  | step ht₂ hn₂ hl₂ =>
      obtain ⟨l, hl'⟩ := hl₂.concat ht hn
      exact ⟨_, _, l, ht₂, hn₂, hl'⟩

/-! ## Heights -/

/-- How many layers are met in the first `n` aliases. -/
def layersFrom (names : NameTable) : Nat → String → Nat
  | 0, _ => 0
  | n + 1, a =>
    match aliasTarget? names a with
    | none => 0
    | some s => s.dimensions + (s.named?.map (layersFrom names n)).getD 0

theorem layersFrom_of_not_alias (h : aliasTarget? names a = none) (n : Nat) :
    layersFrom names n a = 0 := by
  cases n with
  | zero => rfl
  | succ n => rw [layersFrom, h]

theorem layersFrom_succ (h : aliasTarget? names a = some s) (n : Nat) :
    layersFrom names (n + 1) a =
      s.dimensions + (s.named?.map (layersFrom names n)).getD 0 := by
  rw [layersFrom, h]

/-- On a circle of grounded aliases there are no layers. -/
theorem layersFrom_of_circle (hg : Grounded names) (h : LeadsOn names a a) (n : Nat) :
    layersFrom names n a = 0 := by
  induction n generalizing a with
  | zero => rfl
  | succ n ih =>
      obtain ⟨s, b, k, ht, hn, hl⟩ := h
      have hzero : s.dimensions + k = 0 := hg a _ (.step ht hn hl)
      have hnext := ih (LeadsOn.next ⟨s, b, k, ht, hn, hl⟩ ht hn)
      rw [layersFrom_succ ht, hn, Option.map_some, Option.getD_some, hnext]
      omega

theorem mem_names_of_alias (h : aliasTarget? names a = some s) :
    a ∈ names.names.map (·.1) := by
  obtain ⟨p, hp, rfl, -⟩ := aliasTarget_mem h
  exact List.mem_map_of_mem hp

private theorem alias_induct_visited {P : Nat → String → Prop}
    (hcircle : ∀ n a, LeadsOn names a a → P n a)
    (hend : ∀ n a, aliasTarget? names a = none → P n a)
    (hstep : ∀ n a s, aliasTarget? names a = some s → (∀ b ∈ s.named?, P n b) → P (n + 1) a)
    (visited : List String) (hnodup : visited.Nodup)
    (hv : ∀ v ∈ visited, v ∈ names.names.map (·.1) ∧ LeadsOn names v a)
    (hn : names.names.length ≤ visited.length + n) : P n a := by
  induction n generalizing visited a with
  | zero =>
      by_cases ha : a ∈ visited
      · exact hcircle 0 a (hv a ha).2
      · cases ht : aliasTarget? names a with
        | none => exact hend 0 a ht
        | some s =>
            have hsub : (a :: visited) ⊆ names.names.map (·.1) :=
              List.cons_subset.2 ⟨mem_names_of_alias ht, fun v hmem => (hv v hmem).1⟩
            have hle := (List.subperm_of_subset (List.nodup_cons.2 ⟨ha, hnodup⟩) hsub).length_le
            rw [List.length_cons, List.length_map] at hle
            omega
  | succ n ih =>
      by_cases ha : a ∈ visited
      · exact hcircle (n + 1) a (hv a ha).2
      · cases ht : aliasTarget? names a with
        | none => exact hend (n + 1) a ht
        | some s =>
            refine hstep n a s ht fun b hb => ?_
            have hv' : ∀ v ∈ a :: visited, v ∈ names.names.map (·.1) ∧ LeadsOn names v b := by
              refine List.forall_mem_cons.2 ⟨⟨mem_names_of_alias ht, ?_⟩, ?_⟩
              · exact ⟨s, b, 0, ht, hb, .refl b⟩
              · exact fun v hmem => ⟨(hv v hmem).1, (hv v hmem).2.concat ht hb⟩
            refine ih (a :: visited) (List.nodup_cons.2 ⟨ha, hnodup⟩) hv' ?_
            rw [List.length_cons]
            omega

/-- Followed past as many aliases as there are names, a chain of aliases has ended, or one of
them has been visited before and is on a circle. -/
theorem alias_induct {P : Nat → String → Prop} (hcircle : ∀ n a, LeadsOn names a a → P n a)
    (hend : ∀ n a, aliasTarget? names a = none → P n a)
    (hstep : ∀ n a s, aliasTarget? names a = some s → (∀ b ∈ s.named?, P n b) → P (n + 1) a)
    (a : String) : P names.names.length a :=
  alias_induct_visited hcircle hend hstep [] List.nodup_nil (by simp) (by simp)

/-- Past as many aliases as there are names no layer is met any more. -/
private theorem layersFrom_stable (hg : Grounded names) (a : String) :
    layersFrom names (names.names.length + 1) a = layersFrom names names.names.length a := by
  refine alias_induct (P := fun n a => layersFrom names (n + 1) a = layersFrom names n a)
    ?_ ?_ ?_ a
  · intro n a h
    rw [layersFrom_of_circle hg h, layersFrom_of_circle hg h]
  · intro n a ht
    rw [layersFrom_of_not_alias ht, layersFrom_of_not_alias ht]
  · intro n a s ht ih
    rw [layersFrom_succ ht, layersFrom_succ ht]
    cases hb : s.named? with
    | none => rfl
    | some b => rw [Option.map_some, Option.map_some, ih b hb]

/-- How many layers a name unfolds to, if the aliases are grounded. -/
def height (names : NameTable) (a : String) : Nat :=
  layersFrom names names.names.length a

/-- The layers around a core, and those that the core unfolds to. -/
def extent (names : NameTable) (s : Shape) : Nat :=
  s.dimensions + (s.named?.map (height names)).getD 0

/-- An alias unfolds to what it stands for. -/
theorem height_eq (hg : Grounded names) (h : aliasTarget? names a = some s) :
    height names a = extent names s := by
  have hstable : layersFrom names (names.names.length + 1) a = height names a :=
    layersFrom_stable hg a
  rw [← hstable, layersFrom_succ h]
  rfl

/-- Aliases are grounded if one more step from any of them meets no further layer. -/
theorem grounded_iff : Grounded names ↔ ∀ p ∈ names.names,
    layersFrom names (names.names.length + 1) p.1 = height names p.1 := by
  constructor
  · intro hg p _
    exact layersFrom_stable hg p.1
  · intro hall
    have hheight : ∀ {a b k}, Leads names a k b → height names a = k + height names b := by
      intro a b k h
      induction h with
      | refl a => rw [Nat.zero_add]
      | @step a b c s k ht hn _ ih =>
          obtain ⟨p, hp, rfl, -⟩ := aliasTarget_mem ht
          rw [← hall p hp, layersFrom_succ ht, hn, Option.map_some, Option.getD_some,
            Nat.add_assoc, ← ih]
          rfl
    intro a k h
    have := hheight h
    omega

instance (names : NameTable) : Decidable (Grounded names) :=
  decidable_of_iff _ grounded_iff.symm

/-! ## Layers and heights together -/

theorem extent_inner (h : s.inner? = some t) : extent names s = extent names t + 1 := by
  rw [extent, extent, Shape.dimensions_inner h, Shape.named?_inner h]
  omega

theorem extent_withConst (names : NameTable) (s : Shape) (c : Bool) :
    extent names (s.withConst c) = extent names s := by
  rw [extent, extent, Shape.dimensions_withConst, Shape.named?_withConst]

/-- What replaces a core goes inside the layers around it. -/
theorem exists_extent_mapNamed (names : NameTable) (h : s.named? = some a) :
    ∃ c, ∀ f : String → Bool → Shape,
      extent names (s.mapNamed f) = s.dimensions + extent names (f a c) := by
  obtain ⟨c, hc⟩ := Shape.exists_core h
  refine ⟨c, fun f => ?_⟩
  rw [extent, extent, (hc f).1, (hc f).2, Nat.add_assoc]

/-- Replacing an alias turns height into layers. -/
theorem extent_substituteAlias (hg : Grounded names) (s : Shape) :
    extent names (substituteAlias names s) = extent names s := by
  cases hn : s.named? with
  | none => rw [substituteAlias_of_not_alias fun n h => nomatch hn.symm.trans h]
  | some a =>
      cases ha : aliasTarget? names a with
      | none =>
          rw [substituteAlias_of_not_alias]
          intro n h
          rwa [← Option.some.inj (hn.symm.trans h)]
      | some target =>
          obtain ⟨c, hc⟩ := exists_extent_mapNamed names hn
          rw [substituteAlias, hc]
          simp only [ha]
          rw [extent_withConst, ← height_eq hg ha, extent, hn]
          rfl

/-- Spelling a shape and reading it again adds nothing. -/
theorem extent_reread_le (names : NameTable) (s : Shape) :
    extent names s.reread ≤ extent names s := by
  unfold Shape.reread
  split
  · rw [extent, extent, Shape.named?_collapse]
    exact Nat.add_le_add_right (Shape.dimensions_collapse_le s) _
  · exact Nat.zero_le _

/-! ## Legible names on the way -/

/-- Every name that `a` leads to is legible. -/
def LegibleFrom (names : NameTable) (a : String) : Prop :=
  ∀ k b, Leads names a k b → names.LegibleAt b

/-- A legible shape around a core that leads to legible names only. -/
structure LegibleIn (names : NameTable) (s : Shape) : Prop where
  shape : s.Legible
  core : ∀ a ∈ s.named?, LegibleFrom names a

/-- What an alias stands for leads nowhere else than the alias. -/
theorem LegibleFrom.target (h : LegibleFrom names a) (ht : aliasTarget? names a = some t) :
    LegibleIn names t where
  shape := (h 0 a (.refl a)).target t ht
  core _ hn _ b hl := h _ b (.step ht hn hl)

/-- In a legible table every legible shape leads to legible names only. -/
theorem legibleIn (hl : names.Legible) (hs : s.Legible) : LegibleIn names s where
  shape := hs
  core a hn _ b h := by
    induction h generalizing s with
    | refl a => exact legibleAt hl (hs.isName hn)
    | @step a b c t k ht hn' _ ih =>
        have hat : names.LegibleAt a := legibleAt hl (hs.isName hn)
        exact ih (hat.target t ht) hn'

namespace LegibleIn

theorem inner (h : LegibleIn names s) (hi : s.inner? = some t) : LegibleIn names t where
  shape := h.shape.inner hi
  core := by
    rw [← Shape.named?_inner hi]
    exact h.core

theorem collapse (h : LegibleIn names s) : LegibleIn names s.collapse where
  shape := h.shape.collapse
  core := by
    rw [Shape.named?_collapse]
    exact h.core

/-- What is read has the same core, or it is not taken apart. -/
theorem reread (h : LegibleIn names s) : LegibleIn names s.reread where
  shape := h.shape.reread
  core := by
    unfold Shape.reread
    split
    · exact h.collapse.core
    · exact fun a ha => nomatch ha

theorem substituteAlias (h : LegibleIn names s) : LegibleIn names (substituteAlias names s) where
  shape := legible_substituteAlias h.shape fun a hn => h.core a hn 0 a (.refl a)
  core := by
    by_cases halias : ∀ a, s.named? = some a → aliasTarget? names a = none
    · rw [substituteAlias_of_not_alias halias]
      exact h.core
    · push Not at halias
      obtain ⟨a, hn, hne⟩ := halias
      obtain ⟨target, ht⟩ := Option.ne_none_iff_exists'.1 hne
      -- The core is now that of what the alias stands for.
      obtain ⟨c, hc⟩ := Shape.exists_core hn
      rw [Source.substituteAlias, (hc _).1]
      simp only [ht]
      rw [Shape.named?_withConst]
      exact ((h.core a hn).target ht).core

end LegibleIn

end DeclAtlas.Dump.Source
