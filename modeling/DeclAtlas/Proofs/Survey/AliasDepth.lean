import DeclAtlas.Proofs.Survey.Relocation
import DeclAtlas.Proofs.Survey.Running
import Mathlib.Logic.Equiv.Basic

/-!
# The bound on aliases

Following aliases comes to rest at a type of kind `typedef` and at one that a step leaves as
it is. The bound is there for those that never would. Where each of the canonical forms that a
survey asks for is such a type, the bound has cut nothing off, and a survey with a greater one
goes through the same calls: it enters the same uses in the same order, finds the same
entries again, and ends with the same atlas.

## Main results

* `followAliases_of_rests`: a greater bound goes no further from a type at rest.
* `Enters.congr`, `Visits.congr`: entering and visiting depend on the canonical forms of their
  own calls.
* `build_deeper`: the snapshot of a survey that the bound did not stop.
-/

universe u

namespace DeclAtlas.Survey

open DeclarationSource

/-! ## Types at rest -/

section Rests

variable {step : DeclaredType → DeclaredType} {t : DeclaredType}

/-- No alias is followed from a type: it is of kind `typedef`, or a step leaves it as it is. -/
def Rests (step : DeclaredType → DeclaredType) (t : DeclaredType) : Prop :=
  t.kind = .typedef ∨ step t = t

instance : Decidable (Rests step t) := inferInstanceAs (Decidable (_ ∨ _))

theorem Rests.followAliases_eq (h : Rests step t) (bound : Nat) :
    followAliases step bound t = t := by
  rcases h with h | h
  · exact followAliases_typedef h bound
  · exact followAliases_fixed h bound

/-- A type that is not at rest is followed by one step, and then as its successor is. -/
theorem followAliases_of_not_rests (h : ¬ Rests step t) (bound : Nat) :
    followAliases step (bound + 1) t = followAliases step bound (step t) :=
  followAliases_step (fun hk => h (.inl hk)) (fun hs => h (.inr hs)) bound

/-- A greater bound goes no further from a type at rest. -/
theorem followAliases_of_rests {d d' : Nat} (hd : d ≤ d')
    (h : Rests step (followAliases step d t)) :
    followAliases step d' t = followAliases step d t := by
  induction d generalizing d' t with
  | zero => exact Rests.followAliases_eq h d'
  | succ d ih =>
      by_cases ht : Rests step t
      · rw [ht.followAliases_eq, ht.followAliases_eq]
      · obtain ⟨d', rfl⟩ := Nat.exists_eq_add_of_le' (Nat.one_le_of_lt hd)
        rw [followAliases_of_not_rests ht] at h ⊢
        rw [followAliases_of_not_rests ht]
        exact ih (Nat.le_of_succ_le_succ hd) h

/-- It is enough to come to rest after one step. -/
theorem rests_followAliases_succ {d : Nat} (h : Rests step (followAliases step d (step t))) :
    Rests step (followAliases step (d + 1) t) := by
  by_cases ht : Rests step t
  · rwa [ht.followAliases_eq]
  · rwa [followAliases_of_not_rests ht]

end Rests

/-! ## Surveys with other options -/

variable {σ : Type u} [DeclarationSource σ] {o o' : SurveyOptions} {src : σ}
  {t : DeclaredType} {d : Declaration} {a a' : Atlas}

theorem keyOf_congr (hf : formOf o' src t = formOf o src t) :
    keyOf o' src t = keyOf o src t := by
  unfold keyOf
  rw [hf]

theorem targetOf?_congr (hf : formOf o' src t = formOf o src t) :
    targetOf? o' src t = targetOf? o src t := by
  unfold targetOf?
  rw [hf]

theorem entryOf_congr (hf : formOf o' src t = formOf o src t) (a : Atlas) :
    entryOf o' src t a = entryOf o src t a := by
  unfold entryOf
  rw [keyOf_congr hf]

theorem openEntry_congr (hf : formOf o' src t = formOf o src t) (a : Atlas) :
    openEntry o' src t a = openEntry o src t a := by
  unfold openEntry
  rw [entryOf_congr hf, keyOf_congr hf, hf]

theorem linkRecord_congr (hf : formOf o' src t = formOf o src t) (h : TypeHandle) (a : Atlas) :
    linkRecord o' src t h a = linkRecord o src t h a := by
  unfold linkRecord
  rw [hf]

/-- Entering depends on the canonical forms of its calls. -/
theorem Enters.congr {calls : List Call} {h : TypeHandle} (he : Enters o src t a calls h a')
    (hf : ∀ c ∈ calls, formOf o' src c.type = formOf o src c.type) :
    Enters o' src t a calls h a' := by
  induction he with
  | @known t a hk =>
      have hform : formOf o' src t = formOf o src t := hf ⟨t, false⟩ List.mem_cons_self
      rw [← keyOf_congr hform] at hk ⊢
      exact .known hk
  | @flat t a hk ht =>
      have hform : formOf o' src t = formOf o src t := hf ⟨t, true⟩ List.mem_cons_self
      rw [← keyOf_congr hform] at hk
      rw [← targetOf?_congr hform] at ht
      rw [← entryOf_congr hform, ← openEntry_congr hform, ← linkRecord_congr hform]
      exact .flat hk ht
  | @layered t target a a' calls base hk ht _ ih =>
      obtain ⟨hform, hrest⟩ := List.forall_mem_cons.1 hf
      have hbase := ih hrest
      rw [← keyOf_congr hform] at hk
      rw [← targetOf?_congr hform] at ht
      rw [← openEntry_congr hform] at hbase
      rw [← entryOf_congr hform]
      exact .layered hk ht hbase

/-- Visiting a declaration does too, if methods are entered by both or by neither. -/
theorem Visits.congr {uses : List Use} (hv : Visits o src d a uses a')
    (hm : o'.modelMethods = o.modelMethods)
    (hf : ∀ u ∈ uses, ∀ c ∈ u.calls, formOf o' src c.type = formOf o src c.type) :
    Visits o' src d a uses a' := by
  have hmethod : entersMethod o' src = entersMethod o src := by
    unfold entersMethod
    rw [hm]
  have hparameter : parameterOwner? o' src a = parameterOwner? o src a := by
    unfold parameterOwner?
    rw [hm]
  cases hv with
  | idle hi =>
      refine .idle ?_
      unfold IsIdle at hi ⊢
      rwa [hmethod, hparameter]
  | record hk => exact .record hk
  | base hk => exact .base hk
  | field hk he => exact .field hk (he.congr (hf _ (List.mem_singleton_self _)))
  | method hk hin he =>
      exact .method hk (hmethod.trans hin) (he.congr (hf _ (List.mem_singleton_self _)))
  | parameter hk ho he =>
      exact .parameter hk (hparameter.trans ho) (he.congr (hf _ (List.mem_singleton_self _)))

/-! ## Canonical forms in a survey -/

/-- `Canonicalizes o src a s t`: visiting what is left in `src`, from `a` on, asks for the
canonical form of `t` when the source is in the state `s`. -/
inductive Canonicalizes (o : SurveyOptions) : σ → Atlas → σ → DeclaredType → Prop where
  | here {src : σ} {a b : Atlas} {uses : List Use} {u : Use} {c : Call}
      (hread : (next src).1.isEmpty = false)
      (hv : Visits o (next src).2 (next src).1 a uses b) (hu : u ∈ uses) (hc : c ∈ u.calls) :
      Canonicalizes o src a (next src).2 c.type
  | later {src s : σ} {a b : Atlas} {uses : List Use} {t : DeclaredType}
      (hread : (next src).1.isEmpty = false)
      (hv : Visits o (next src).2 (next src).1 a uses b)
      (hlater : Canonicalizes o (next src).2 b s t) : Canonicalizes o src a s t

/-- Reading on does not change how aliases are followed, if types are steady. -/
theorem Canonicalizes.stripAlias_eq [SteadyTypes σ] {s : σ} (h : Canonicalizes o src a s t) :
    stripAlias s = stripAlias src := by
  induction h with
  | here => exact SteadyTypes.stripAlias_next _
  | later _ _ _ ih => exact ih.trans (SteadyTypes.stripAlias_next _)

/-- A survey depends on the canonical forms that it asks for. -/
theorem drain_congr {fuel : Nat} {r : Atlas × σ} (hm : o'.modelMethods = o.modelMethods)
    (hf : ∀ s t, Canonicalizes o src a s t → formOf o' s t = formOf o s t)
    (h : drain (.standard o) fuel src a = some r) :
    drain (.standard o') fuel src a = some r := by
  induction fuel generalizing src a with
  | zero => exact nomatch h
  | succ fuel ih =>
      rw [drain] at h ⊢
      cases hread : (next src).1.isEmpty with
      | true =>
          simp only [hread, if_true] at h ⊢
          exact h
      | false =>
          simp only [hread, Bool.false_eq_true, if_false] at h ⊢
          obtain ⟨b, hb, hdrain⟩ := Option.bind_eq_some_iff.1 h
          obtain ⟨uses, hv, hlen⟩ := visit_eq_some_iff.1 hb
          have hv' := hv.congr hm fun u hu c hc => hf _ _ (.here hread hv hu hc)
          rw [visit_eq_some_iff.2 ⟨uses, hv', hlen⟩]
          exact ih (fun s t hlater => hf s t (.later hread hv hlater)) hdrain

/-! ## Greater bounds -/

/-- A greater bound keeps a canonical form that is at rest. -/
theorem formOf_deeper {d d' : Nat} (hd : d ≤ d')
    (h : Rests (stripAlias src) (formOf { o with maxAliasDepth := d } src t)) :
    formOf { o with maxAliasDepth := d' } src t = formOf { o with maxAliasDepth := d } src t := by
  refine followAliases_of_rests ?_ h
  simp only [SurveyRules.standard, SurveyOptions.normalize]
  omega

/-- If every canonical form that a survey asks for is at rest, then a survey with a greater
bound ends as well, at the same place of the source and with the same snapshot, wherever its
atlas is: the same structures and types in the same order, with handles of the same
positions. -/
theorem build_deeper {d d' fuel : Nat} {id : ArenaId} {src' : σ} (hd : d ≤ d')
    (hb : build (.standard { o with maxAliasDepth := d }) fuel src id = some (a, src'))
    (hrests : ∀ s t, Canonicalizes { o with maxAliasDepth := d } src (Atlas.empty id) s t →
      Rests (stripAlias s) (formOf { o with maxAliasDepth := d } s t))
    (id' : ArenaId) (source : String) :
    ∃ a', build (.standard { o with maxAliasDepth := d' }) fuel src id' = some (a', src') ∧
      (Snapshot.ofAtlas source a').byPosition = (Snapshot.ofAtlas source a).byPosition ∧
      (Snapshot.ofAtlas source a').toJson = (Snapshot.ofAtlas source a).toJson := by
  have hsame : build (.standard { o with maxAliasDepth := d' }) fuel src id = some (a, src') :=
    drain_congr (o := { o with maxAliasDepth := d }) rfl
      (fun s t h => formOf_deeper hd (hrests s t h)) hb
  have hmoved : build (.standard { o with maxAliasDepth := d' }) fuel src
      (Equiv.swap id id' id) = _ := build_relocate (Equiv.swap id id').injective fuel src id
  rw [Equiv.swap_apply_left, hsame] at hmoved
  refine ⟨_, hmoved, ?_, ?_⟩
  · rw [Snapshot.ofAtlas_relocate, Snapshot.byPosition_relocate]
  · rw [Snapshot.ofAtlas_relocate, Snapshot.toJson_relocate]

/-! A chain of two aliases, well within either bound. -/

/-- A type of kind `long` with a name. -/
def longType (name : String) : DeclaredType := { identifier := name, kind := .long }

/-- A struct with a field of type `word`, which leads to `long` over `wide`. -/
def chained : Script :=
  let recorded := (((default : Script).nest .structDecl "S").leaf .field "S::n").withType
    (longType "word")
  (recorded.defineType "word" { target := some (longType "wide") }).defineType "wide"
    { target := some (longType "long") }

theorem stripAlias_chained (t : DeclaredType) :
    stripAlias chained t =
      if t.identifier = "wide" then longType "long"
      else if t.identifier = "word" then longType "wide" else t := by
  have htypes : chained.types = [("wide", { target := some (longType "long") }),
      ("word", { target := some (longType "wide") })] := by decide
  show ((chained.facts? t.identifier).bind (·.target)).getD t = _
  unfold Script.facts?
  rw [htypes]
  by_cases hwide : t.identifier = "wide"
  · simp [hwide]
  · by_cases hword : t.identifier = "word"
    · simp [hword]
    · simp [hwide, hword, Ne.symm hwide, Ne.symm hword]

theorem rests_chained (t : DeclaredType) :
    Rests (stripAlias chained) (followAliases (stripAlias chained) 3 t) := by
  have hstep := stripAlias_chained t
  split at hstep
  · refine rests_followAliases_succ ?_
    rw [hstep]
    decide
  · split at hstep
    · refine rests_followAliases_succ ?_
      rw [hstep]
      decide
    · have hrest : Rests (stripAlias chained) t := .inr hstep
      rwa [hrest.followAliases_eq]

theorem build_deeper_chained :
    ∃ a src',
      build (.standard { maxAliasDepth := 3 }) 9 chained ⟨1⟩ = some (a, src') ∧
      (∀ s t, Canonicalizes { maxAliasDepth := 3 } chained (Atlas.empty ⟨1⟩) s t →
        Rests (stripAlias s) (formOf { maxAliasDepth := 3 } s t)) ∧
      a.types.keys = ["long"] ∧
      ∃ a', build (.standard { maxAliasDepth := 16 }) 9 chained ⟨7⟩ = some (a', src') ∧
        (Snapshot.ofAtlas "chain.h" a').byPosition =
          (Snapshot.ofAtlas "chain.h" a).byPosition := by
  have hb : build (.standard { maxAliasDepth := 3 }) 9 chained ⟨1⟩ = some (_, _) := rfl
  have hrests : ∀ s t, Canonicalizes { maxAliasDepth := 3 } chained (Atlas.empty ⟨1⟩) s t →
      Rests (stripAlias s) (formOf { maxAliasDepth := 3 } s t) := by
    intro s t h
    unfold formOf canonical
    rw [h.stripAlias_eq]
    exact rests_chained t
  have hd : 3 ≤ 16 := by decide
  obtain ⟨a', hb', hsame, -⟩ := build_deeper (o := {}) hd hb hrests ⟨7⟩ "chain.h"
  exact ⟨_, _, hb, hrests, rfl, a', hb', hsame⟩

end DeclAtlas.Survey
