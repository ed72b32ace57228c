import DeclAtlas.Proofs.Survey.Running
import Mathlib.Logic.Relation

/-!
# The graph of types

The bases of type entries make a graph. It is exactly what the types in use make of it:
every entry has the base that its use leads on to, and every entry is reached along bases
from a type that some declaration was entered with.

The base of an entry is looked up while the entry is open, and the entries around it may be
open as well, also round a circle. What is known of an entry at the end is known from the
use that made it (`Runs.filled`), so neither half has to speak of open entries. For the
second it is enough that a derivation goes from each use to the one below it.

## Main results

* `baseKey?_eq`: when a use has something below it, and under which name.
* `Enters.reach`: what a derivation has made is reached from where it started.
* `build_typeGraphExact`: the graph of every atlas that is built.
-/

universe u

namespace DeclAtlas.Survey

open DeclarationSource

variable {σ : Type u} [DeclarationSource σ] {o : SurveyOptions} {src src' s : σ}
  {d : Declaration} {t u target : DeclaredType} {a a' b : Atlas} {calls : List Call}
  {uses : List Use} {h : TypeHandle} {e : TypeEntry}

/-! ## What lies below a use -/

/-- What lies below the canonical form `c` in an entry of a kind. -/
def lower? (src : σ) (c : DeclaredType) : TypeKind → Option DeclaredType
  | .pointer | .lValueRef | .rValueRef | .constantArray | .incompleteArray =>
    some (element src c)
  | .typedef => some (stripAlias src c)
  | _ => none

theorem targetOf?_of_lower? (hl : lower? src (formOf o src u) u.kind = some target) :
    targetOf? o src u =
      if target = formOf o src u ∨ target.identifier = "" then none else some target := by
  have hrule : below? (ruleOf u.kind) src (formOf o src u) =
      (some target).filter fun t => t ≠ formOf o src u && t.identifier ≠ "" := by
    cases hk : u.kind <;> rw [hk] at hl
    case pointer | lValueRef | rValueRef | constantArray | incompleteArray =>
      rw [← Option.some.inj hl]
      rfl
    case typedef =>
      rw [← Option.some.inj hl]
      rfl
    all_goals exact nomatch hl
  unfold targetOf?
  rw [hrule]
  by_cases hs : target = formOf o src u
  · simp [Option.filter, hs]
  · by_cases hn : target.identifier = ""
    · simp [Option.filter, hn]
    · simp [Option.filter, hs, hn]

/-- A use has no base if what lies below it is itself, has no name or has the same name. -/
theorem baseKey?_eq (hl : lower? src (formOf o src u) u.kind = some target) :
    baseKey? o src u =
      if target = formOf o src u ∨ target.identifier = "" ∨
          keyOf o src target = (formOf o src u).identifier then none
      else some (keyOf o src target) := by
  unfold baseKey?
  rw [targetOf?_of_lower? hl]
  by_cases hs : target = formOf o src u ∨ target.identifier = ""
  · have hall : target = formOf o src u ∨ target.identifier = "" ∨
        keyOf o src target = (formOf o src u).identifier := by
      rcases hs with hs | hs
      · exact Or.inl hs
      · exact Or.inr (Or.inl hs)
    rw [if_pos hs, if_pos hall]
    rfl
  · by_cases hk : keyOf o src target = keyOf o src u
    · have hall : target = formOf o src u ∨ target.identifier = "" ∨
          keyOf o src target = (formOf o src u).identifier := Or.inr (Or.inr hk)
      rw [if_neg hs, if_pos hall]
      simp [Option.filter, hk]
    · have hnone : ¬ (target = formOf o src u ∨ target.identifier = "" ∨
          keyOf o src target = (formOf o src u).identifier) := by
        rintro (hc | hc | hc)
        · exact hs (Or.inl hc)
        · exact hs (Or.inr hc)
        · exact hk hc
      rw [if_neg hs, if_neg hnone]
      simp [Option.filter, hk]

/-- The base of the entry `e`, which was made from the canonical form `c`, is the entry of
what lies below `c`, unless there is nothing below or nothing else. -/
structure BaseExact (o : SurveyOptions) (src : σ) (a : Atlas) (c : DeclaredType)
    (e : TypeEntry) : Prop where
  isNull_iff : ∀ target, lower? src c e.kind = some target →
    (e.base.isNull = true ↔
      target = c ∨ target.identifier = "" ∨ keyOf o src target = c.identifier)
  found : ∀ target, lower? src c e.kind = some target → e.base.isNull = false →
    e.base = a.findType (keyOf o src target)

theorem Filled.baseExact (hf : Filled o src u a e) :
    BaseExact o src a (formOf o src u) e := by
  have hbase := hf.base
  -- An entry that is marked as not modelled has no kind that leads on.
  have hkind : ∀ {target}, lower? src (formOf o src u) e.kind = some target →
      lower? src (formOf o src u) u.kind = some target := by
    intro target hl
    rcases hf.layer.kind with hk | hk
    · rwa [← hk]
    · rw [hk] at hl
      exact nomatch hl
  constructor
  · intro target hl
    rw [baseKey?_eq (hkind hl)] at hbase
    split at hbase
    · rename_i hc
      rw [show e.base = .null from hbase]
      exact ⟨fun _ => hc, fun _ => rfl⟩
    · rename_i hc
      have hnull : e.base.isNull = false := by
        rw [hbase.2]
        exact (Registry.isNull_find_eq_false_iff ..).2 hbase.1
      rw [hnull]
      exact ⟨fun hn => (nomatch hn), fun hn => absurd hn hc⟩
  · intro target hl hn
    rw [baseKey?_eq (hkind hl)] at hbase
    split at hbase
    · rw [show e.base = .null from hbase] at hn
      exact nomatch hn
    · exact hbase.2

/-! ## Along bases -/

/-- The type `y` is the base of the type `x`. -/
def BaseLink (a : Atlas) (x y : TypeHandle) : Prop :=
  ∃ e, a.type? x = some e ∧ e.base = y ∧ y.isNull = false

/-- What a derivation has made is reached from where it started, in any atlas that has the
entries with their bases. -/
theorem Enters.reach (he : Enters o src t a calls h a')
    (hb : ∀ u ∈ newUses calls, ∃ e, b.type? (b.findType (keyOf o src u)) = some e ∧
      b.types.Finds (baseKey? o src u) e.base) :
    ∀ u ∈ newUses calls,
      Relation.ReflTransGen (BaseLink b) (b.findType (keyOf o src t))
        (b.findType (keyOf o src u)) := by
  induction he with
  | known hk => simp
  | flat hk ht =>
      intro u hu
      obtain rfl := List.mem_singleton.1 hu
      exact .refl
  | @layered t target a a' calls base hk ht _ ih =>
      intro u hu
      rcases List.mem_cons.1 hu with rfl | hu
      · exact .refl
      · have htail := ih (fun v hv => hb v (List.mem_cons_of_mem _ hv)) u hu
        by_cases hs : keyOf o src target = keyOf o src t
        · rwa [hs] at htail
        · obtain ⟨e, hentry, hfinds⟩ := hb t (List.mem_cons_self ..)
          have hbase : baseKey? o src t = some (keyOf o src target) := by
            unfold baseKey?
            rw [ht]
            simp [Option.filter, hs]
          rw [hbase] at hfinds
          have hlink : BaseLink b (b.findType (keyOf o src t))
              (b.findType (keyOf o src target)) :=
            ⟨e, hentry, hfinds.2, (Registry.isNull_find_eq_false_iff ..).2 hfinds.1⟩
          exact .head hlink htail

/-! ## Where types are used -/

/-- Reading on from `src` comes to the declaration `d`, and then the source is in the state
`s`. -/
inductive Dispatched : σ → Declaration → σ → Prop where
  | here {src : σ} (hread : (next src).1.isEmpty = false) :
      Dispatched src (next src).1 (next src).2
  | later {src s : σ} {d : Declaration} (hread : (next src).1.isEmpty = false)
      (hd : Dispatched (next src).2 d s) : Dispatched src d s

/-- The use `u` is that of a field which is read from `src`, or of a method or parameter if
these are entered. -/
structure IsRoot (o : SurveyOptions) (src : σ) (u : Use) : Prop where
  dispatched : ∃ s, Dispatched src u.declaration s ∧ u.type = declaredType s u.declaration
  kind : u.declaration.kind = .field ∨ (o.modelMethods = true ∧
    (u.declaration.kind = .method ∨ u.declaration.kind = .parameter))

theorem Visits.root_kind (hv : Visits o src d a uses a') : ∀ u ∈ uses,
    u.declaration.kind = .field ∨ (o.modelMethods = true ∧
      (u.declaration.kind = .method ∨ u.declaration.kind = .parameter)) := by
  cases hv with
  | idle | record | base => simp
  | field hk he => simpa using Or.inl hk
  | method hk hm he =>
      have hon : o.modelMethods = true := (Bool.and_eq_true_iff.1 hm).1
      simpa [hk] using hon
  | parameter hk ho he =>
      have hon : o.modelMethods = true := by
        unfold parameterOwner? at ho
        split at ho
        · split at ho
          · rename_i hc
            simp only [Bool.and_eq_true] at hc
            exact hc.1.1.1
          · exact nomatch ho
        · exact nomatch ho
      simpa [hk] using hon

/-- Every use of a run is that of a declaration that was read, and made its calls in some
state on the way. -/
theorem Runs.use (hr : Runs o src a uses a' src') : ∀ u ∈ uses, IsRoot o src u ∧
    ∃ s b h b', Dispatched src u.declaration s ∧ Enters o s u.type b u.calls h b' ∧
      b'.Grows a' := by
  induction hr with
  | done hend => simp
  | @step src src' a b a' us vs hread hv hr ih =>
      intro u hu
      rcases List.mem_append.1 hu with hu | hu
      · have hkind := hv.root_kind u hu
        rcases hv.types with ⟨rfl, -⟩ | ⟨calls, h, c, rfl, he, hg, -⟩
        · exact nomatch hu
        · obtain rfl := List.mem_singleton.1 hu
          exact ⟨⟨⟨_, .here hread, rfl⟩, hkind⟩,
            _, _, _, _, .here hread, he, hg.trans hr.grows⟩
      · obtain ⟨⟨⟨s, hd, htype⟩, hkind⟩, s', b, h, b', hd', he, hg⟩ := ih u hu
        exact ⟨⟨⟨s, .later hread hd, htype⟩, hkind⟩, s', b, h, b', .later hread hd', he, hg⟩

section Steady

variable [SteadyTypes σ]

theorem Dispatched.keyOf_eq (hd : Dispatched src d s) : keyOf o s = keyOf o src := by
  induction hd with
  | here hread => exact keyOf_next ..
  | later hread _ ih => exact ih.trans (keyOf_next ..)

theorem Dispatched.baseKey?_eq (hd : Dispatched src d s) :
    baseKey? o s = baseKey? o src := by
  have hnext : ∀ src : σ, baseKey? o (next src).2 = baseKey? o src := by
    intro src
    funext u
    unfold baseKey?
    rw [targetOf?_next, keyOf_next]
  induction hd with
  | here hread => exact hnext _
  | later hread _ ih => exact ih.trans (hnext _)

/-! ## The whole graph -/

/-- The type entries and their bases are the closure of the types in use. -/
structure TypeGraphExact (o : SurveyOptions) (src : σ) (uses : List Use) (a : Atlas) :
    Prop where
  /-- The entries are those of the uses that made them, one for each and in order. -/
  entries : a.types.keys = (created uses).map (keyOf o src)
  /-- Each has the base that its use leads on to. -/
  edges : ∀ h e, a.type? h = some e → ∃ u ∈ created uses,
    a.findType (keyOf o src u) = h ∧ BaseExact o src a (formOf o src u) e
  /-- Types are used by fields, and by methods and parameters if these are entered. -/
  roots : ∀ u ∈ uses, IsRoot o src u ∧ keyOf o src u.type ∈ a.types.keys
  /-- Every entry is reached from the entry of a type in use. -/
  reached : ∀ h e, a.type? h = some e → ∃ u ∈ uses,
    Relation.ReflTransGen (BaseLink a) (a.findType (keyOf o src u.type)) h

theorem Runs.typeGraphExact {id : ArenaId} (hr : Runs o src (Atlas.empty id) uses a src') :
    TypeGraphExact o src uses a := by
  have hkeys : a.types.keys = (created uses).map (keyOf o src) := hr.keys
  have hnodup : a.types.keys.Nodup := hr.nodup List.nodup_nil
  have hmade : ∀ {h e}, a.type? h = some e →
      ∃ u ∈ created uses, a.findType (keyOf o src u) = h ∧ Filled o src u a e := by
    intro h e he
    obtain ⟨k, hk⟩ := Registry.get?_eq_some_iff.1 he
    have hmem := hk.mem_keys
    rw [hkeys] at hmem
    obtain ⟨u, hu, rfl⟩ := List.mem_map.1 hmem
    obtain ⟨e', hh, hf⟩ := hr.filled u hu
    have hfind : a.findType (keyOf o src u) = h := hk.find hnodup
    rw [hfind] at hh
    obtain rfl := (hk.unique hh).2
    exact ⟨u, hu, hfind, hf⟩
  constructor
  case entries => exact hkeys
  case edges =>
    intro h e he
    obtain ⟨u, hu, hfind, hf⟩ := hmade he
    exact ⟨u, hu, hfind, hf.baseExact⟩
  case roots =>
    intro u hu
    obtain ⟨hroot, s, b, h, b', hd, he, hg⟩ := hr.use u hu
    have hmem := hg.types.mem he.found.1
    rw [hd.keyOf_eq] at hmem
    exact ⟨hroot, hmem⟩
  case reached =>
    intro h e he
    obtain ⟨v, hv, rfl, -⟩ := hmade he
    obtain ⟨u, hu, hnew⟩ := List.mem_flatMap.1 hv
    obtain ⟨-, s, b, h, b', hd, henters, hg⟩ := hr.use u hu
    refine ⟨u, hu, ?_⟩
    have hreach := henters.reach (b := a) ?_ v hnew
    · rwa [hd.keyOf_eq] at hreach
    · intro w hw
      obtain ⟨e', hh, hf⟩ := hr.filled w (List.mem_flatMap.2 ⟨u, hu, hw⟩)
      rw [hd.keyOf_eq, hd.baseKey?_eq]
      exact ⟨e', Registry.get?_eq_some_iff.2 ⟨_, hh⟩, hf.base⟩

end Steady

/-- The graph of types is exactly the closure of the types in use, in every atlas that is
built from a script or from a dump. -/
theorem build_typeGraphExact (o : SurveyOptions) (fuel : Nat) (id : ArenaId) (a : Atlas) :
    (∀ s s' : Script, build (.standard o) fuel s id = some (a, s') →
      ∃ uses, Runs o s (Atlas.empty id) uses a s' ∧ TypeGraphExact o s uses a) ∧
    (∀ s s' : Dump.Source, build (.standard o) fuel s id = some (a, s') →
      ∃ uses, Runs o s (Atlas.empty id) uses a s' ∧ TypeGraphExact o s uses a) := by
  constructor
  · intro s s' hb
    obtain ⟨uses, hr⟩ := runs_of_build hb
    exact ⟨uses, hr, hr.typeGraphExact⟩
  · intro s s' hb
    obtain ⟨uses, hr⟩ := runs_of_build hb
    exact ⟨uses, hr, hr.typeGraphExact⟩

theorem typeGraphExact_linked :
    (∃ a s' uses, build (.standard { modelMethods := true }) 9 Script.linked ⟨1⟩ = some (a, s') ∧
      a.types.values.map (fun e => (e.qualifiedName, e.base)) =
        [("Id", a.findType "unsigned int"), ("unsigned int", .null),
          ("Node *", a.findType "Node"), ("Node", .null),
          ("unsigned int[4]", a.findType "unsigned int")] ∧
      TypeGraphExact { modelMethods := true } Script.linked uses a) ∧
    (∃ a s' uses,
      build (.standard { modelMethods := true }) 9 Dump.Source.linked ⟨1⟩ = some (a, s') ∧
      a.types.values.map (fun e => (e.qualifiedName, e.base)) =
        [("Id", a.findType "unsigned int"), ("unsigned int", .null),
          ("Node *", a.findType "Node"), ("Node", .null),
          ("unsigned int[4]", a.findType "unsigned int")] ∧
      TypeGraphExact { modelMethods := true } Dump.Source.linked uses a) := by
  constructor
  · have hbuilt : ∃ r ∈ build (.standard { modelMethods := true }) 9 Script.linked ⟨1⟩,
        r.1.types.values.map (fun e => (e.qualifiedName, e.base)) =
          [("Id", r.1.findType "unsigned int"), ("unsigned int", .null),
            ("Node *", r.1.findType "Node"), ("Node", .null),
            ("unsigned int[4]", r.1.findType "unsigned int")] := by
      decide +kernel
    obtain ⟨⟨a, s'⟩, hb, hbases⟩ := hbuilt
    obtain ⟨uses, -, hg⟩ := (build_typeGraphExact _ 9 ⟨1⟩ a).1 _ s' hb
    exact ⟨a, s', uses, hb, hbases, hg⟩
  · have hbuilt : ∃ r ∈ build (.standard { modelMethods := true }) 9 Dump.Source.linked ⟨1⟩,
        r.1.types.values.map (fun e => (e.qualifiedName, e.base)) =
          [("Id", r.1.findType "unsigned int"), ("unsigned int", .null),
            ("Node *", r.1.findType "Node"), ("Node", .null),
            ("unsigned int[4]", r.1.findType "unsigned int")] := by
      decide +kernel
    obtain ⟨⟨a, s'⟩, hb, hbases⟩ := hbuilt
    obtain ⟨uses, -, hg⟩ := (build_typeGraphExact _ 9 ⟨1⟩ a).2 _ s' hb
    exact ⟨a, s', uses, hb, hbases, hg⟩

end DeclAtlas.Survey
