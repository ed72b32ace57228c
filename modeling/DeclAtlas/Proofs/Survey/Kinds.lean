import DeclAtlas.Proofs.Survey.Running

/-!
# The kind of an entry

An entry takes its kind from the use that makes it, and may be marked later as not modelled
by a use of an enum with the same name. So if all uses of a name are of one kind, and that
kind is no enum, the entry of the name is of that kind at all times.

Which uses there are is told by `Enters.calls_induction` and `Runs.calls_induction`: what is
true of the types that declarations have, and of what any such type leads on to, is true of
every use.

## Main results

* `Runs.calls_induction`: what is true of every use in a run.
* `Runs.structKind`: the entry of a name that is used for structs only.
-/

universe u

namespace DeclAtlas.Survey

open DeclarationSource

variable {σ : Type u} [DeclarationSource σ] {o : SurveyOptions} {src src' : σ}
  {d : Declaration} {t target : DeclaredType} {a a' : Atlas} {calls : List Call}
  {uses : List Use} {h x : TypeHandle} {q k : String} {e : TypeEntry}

/-! ## All uses -/

/-- What is true of a use and of what any such use leads on to is true of all calls. -/
theorem Enters.calls_induction {P : DeclaredType → Prop}
    (hstep : ∀ t target, P t → targetOf? o src t = some target → P target)
    (he : Enters o src t a calls h a') (ht : P t) : ∀ c ∈ calls, P c.type := by
  induction he with
  | known hk => simpa using ht
  | flat hk hnone => simpa using ht
  | layered hk htarget _ ih =>
      exact List.forall_mem_cons.2 ⟨ht, ih (hstep _ _ ht htarget)⟩

/-- What is true of the types of all declarations, and kept by each step below a type, is
true of every use of a run. `Q` says which states of the source can be met. -/
theorem Runs.calls_induction {P : DeclaredType → Prop} {Q : σ → Prop}
    (hnext : ∀ s, Q s → Q (next s).2) (hdeclared : ∀ s d, Q s → P (declaredType s d))
    (hstep : ∀ s t target, Q s → P t → targetOf? o s t = some target → P target)
    (hr : Runs o src a uses a' src') (hq : Q src) :
    ∀ u ∈ uses, ∀ c ∈ u.calls, P c.type := by
  induction hr with
  | done hend => simp
  | step hread hv _ ih =>
      intro u hu
      rcases List.mem_append.1 hu with hu | hu
      · rcases hv.types with ⟨rfl, -, -⟩ | ⟨calls, _, _, rfl, he, -, -⟩
        · exact nomatch hu
        · rw [List.mem_singleton.1 hu]
          exact he.calls_induction (fun t target => hstep _ t target (hnext _ hq))
            (hdeclared _ _ (hnext _ hq))
      · exact ih (hnext _ hq) u hu

/-- The uses that made entries are among the calls. -/
theorem forall_created {P : DeclaredType → Prop} (h : ∀ u ∈ uses, ∀ c ∈ u.calls, P c.type) :
    ∀ u ∈ created uses, P u := by
  intro u hu
  obtain ⟨use, huse, hnew⟩ := List.mem_flatMap.1 hu
  obtain ⟨c, hc, rfl⟩ := List.mem_map.1 hnew
  exact h use huse c (List.mem_filter.1 hc).1

/-! ## Entries of structs -/

/-- Whatever is entered under the name `q` is a struct. -/
def StructKind (q : String) (a : Atlas) : Prop :=
  ∀ ⦃x e⦄, a.types.Holds x q e → e.kind = .struct

/-- A change of an entry that keeps structs, or that is made under another name. -/
theorem StructKind.modifyType {f : TypeEntry → TypeEntry} (ha : StructKind q a)
    (hf : ∀ e, a.types.Holds h q e → e.kind = .struct → (f e).kind = .struct) :
    StructKind q (a.modifyType h f) := by
  intro x e hv
  obtain ⟨w, hw, rfl⟩ := Registry.holds_modify.1 hv
  by_cases hx : x = h
  · subst hx
    rw [if_pos rfl]
    exact hf w hw (ha hw)
  · rw [if_neg hx]
    exact ha hw

theorem StructKind.openEntry (ha : StructKind q a) (hk : keyOf o src t ∉ a.types.keys)
    (hq : keyOf o src t = q → t.kind = .struct) : StructKind q (openEntry o src t a) := by
  intro x e hv
  rw [openEntry_types] at hv
  obtain ⟨w, hw, rfl⟩ := Registry.holds_modify.1 hv
  rcases Registry.holds_enter.1 hw with hold | ⟨-, hx, hname, -⟩
  · rw [if_neg (ne_entryOf hk hold)]
    exact ha hold
  · rw [if_pos (show x = entryOf o src t a from hx)]
    exact hq hname.symm

/-- Marking an entry at a use reaches entries of another name only. -/
theorem StructKind.atEveryUse (ha : StructKind q a) (hv : a.types.Holds h k e)
    (hq : k = q → t.kind = .struct) : StructKind q (atEveryUse (ruleOf t.kind) h a) := by
  cases hr : ruleOf t.kind with
  | plain | element | record | typeAlias => exact ha
  | enumeration =>
      refine ha.modifyType fun w hw _ => ?_
      have hkind := hq (hv.unique hw).1
      rw [hkind] at hr
      exact nomatch hr

theorem StructKind.closeEntry (ha : StructKind q a) (hv : a.types.Holds h k e)
    (hq : k = q → t.kind = .struct) : StructKind q (closeEntry t h a) := by
  have hcomplete : StructKind q (a.modifyType h complete) := ha.modifyType fun _ _ hs => hs
  exact hcomplete.atEveryUse hv.modify_self hq

theorem StructKind.linkBase (ha : StructKind q a) (h base : TypeHandle) :
    StructKind q (linkBase h base a) := by
  unfold Survey.linkBase
  split
  · exact ha
  · exact ha.modifyType fun _ _ hs => hs

theorem StructKind.linkRecord (ha : StructKind q a) (o : SurveyOptions) (src : σ)
    (t : DeclaredType) (h : TypeHandle) : StructKind q (linkRecord o src t h a) := by
  unfold Survey.linkRecord linkStructure
  split
  · split
    · refine StructKind.modifyType ?_ fun _ _ _ => rfl
      exact ha
    · exact ha
  · exact ha

/-- Entering uses all of which are structs where they have the name `q`. -/
theorem Enters.structKind (he : Enters o src t a calls h a')
    (hq : ∀ c ∈ calls, keyOf o src c.type = q → c.type.kind = .struct)
    (ha : StructKind q a) : StructKind q a' := by
  induction he with
  | known hk =>
      obtain ⟨e, hv⟩ := Registry.exists_holds_find hk
      exact ha.atEveryUse hv (hq _ List.mem_cons_self)
  | flat hk ht =>
      have hopen := ha.openEntry hk (hq _ List.mem_cons_self)
      obtain ⟨e, hv, -⟩ :=
        holds_linkRecord_self (ownLayer_openLayer _ _ _) rfl (holds_openEntry_self hk)
      exact (hopen.linkRecord _ _ _ _).closeEntry hv (hq _ List.mem_cons_self)
  | layered hk ht hb ih =>
      obtain ⟨hfirst, hrest⟩ := List.forall_mem_cons.1 hq
      have hbelow := ih hrest (ha.openEntry hk hfirst)
      obtain ⟨e, hv, -⟩ := hb.kept (holds_openEntry_self hk)
      exact (hbelow.linkBase _ _).closeEntry (holds_linkBase_self _ hv) hfirst

/-- An atlas that is built of uses all of which are structs where they have the name `q`. -/
theorem Runs.structKind [SteadyTypes σ] (hr : Runs o src a uses a' src')
    (hq : ∀ u ∈ uses, ∀ c ∈ u.calls, keyOf o src c.type = q → c.type.kind = .struct)
    (ha : StructKind q a) : StructKind q a' := by
  induction hr with
  | done hend => exact ha
  | @step src src' a b a' us vs hread hv _ ih =>
      have hrest : ∀ u ∈ vs, ∀ c ∈ u.calls, keyOf o (next src).2 c.type = q →
          c.type.kind = .struct := by
        intro u hu
        rw [keyOf_next]
        exact hq u (List.mem_append_right us hu)
      refine ih hrest ?_
      rcases hv.types with ⟨-, -, ht⟩ | ⟨calls, _, c, rfl, he, -, ht⟩
      · unfold StructKind
        rwa [ht]
      · have hfirst : ∀ c ∈ calls, keyOf o (next src).2 c.type = q → c.type.kind = .struct := by
          rw [keyOf_next]
          exact hq _ List.mem_cons_self
        unfold StructKind
        rw [ht]
        exact he.structKind hfirst ha

end DeclAtlas.Survey
