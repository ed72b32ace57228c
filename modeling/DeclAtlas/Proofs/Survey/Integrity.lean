import DeclAtlas.Proofs.Survey.Running

/-!
# Reference integrity

An atlas that a survey yields can be read without any care: a name leads to the entry of
that name and back, every type is complete, and every handle that is stored anywhere is
null where it may be and names something of the same atlas otherwise.

The structures are the harder half, since what they refer to is still being entered when
they are written. So their invariant speaks of a later atlas: what is stored in them has to
name something there. It then holds of all atlases of a run with respect to the last.

## Main results

* `Enters.settled`, `Visits.closed`: what one step preserves.
* `Runs.settled`, `Runs.closed`: what a run preserves.
* `build_referenceIntegrity`: every atlas that is built has reference integrity.
-/

universe u

namespace DeclAtlas

/-! ## What is to be shown -/

/-- The handle names a type of the atlas. -/
def Atlas.HasType (a : Atlas) (h : TypeHandle) : Prop := (a.type? h).isSome = true

/-- The handle names a structure of the atlas. -/
def Atlas.HasStructure (a : Atlas) (h : StructureHandle) : Prop :=
  (a.structure? h).isSome = true

/-- Every handle in a structure names something of the atlas, those in its path unless they
are null. -/
structure Structure.Closed (a : Atlas) (s : Structure) : Prop where
  fields : ∀ f ∈ s.fields, a.HasType f.type
  returnTypes : ∀ m ∈ s.methods, a.HasType m.returnType
  parameters : ∀ m ∈ s.methods, ∀ p ∈ m.parameters, a.HasType p.type
  parents : ∀ p ∈ s.parents, a.HasStructure p
  path : ∀ n ∈ s.path, n.structureHandle = .null ∨ a.HasStructure n.structureHandle
  templateParameters : ∀ p ∈ s.templateParameters, p.type = .null ∨ a.HasType p.type

/-- Every handle in a type entry is null or names something of the atlas. -/
structure TypeEntry.Closed (a : Atlas) (e : TypeEntry) : Prop where
  base : e.base = .null ∨ a.HasType e.base
  baseStructure : e.baseStructure = .null ∨ a.HasStructure e.baseStructure
  templateArguments : ∀ x ∈ e.templateArguments,
    x.parameter.type = .null ∨ a.HasType x.parameter.type

/-- An atlas in which names and handles can be trusted. -/
structure ReferenceIntegrity (a : Atlas) : Prop where
  /-- Every type is complete. -/
  resolved : ∀ h e, a.type? h = some e → e.state = .resolved
  /-- A type that is found under a name has that name, twice. -/
  typeOfName : ∀ n e, a.type? (a.findType n) = some e → e.qualifiedName = n ∧ e.identifier = n
  structureOfName : ∀ n s, a.structure? (a.findStructure n) = some s → s.qualifiedName = n
  /-- Under its own name a type is found, with exactly its own handle. -/
  findType : ∀ h e, a.type? h = some e → a.findType e.qualifiedName = h
  findStructure : ∀ h s, a.structure? h = some s → a.findStructure s.qualifiedName = h
  typeNames : (a.types.values.map (·.qualifiedName)).Nodup
  structureNames : (a.structures.values.map (·.qualifiedName)).Nodup
  typesClosed : ∀ h e, a.type? h = some e → e.Closed a
  structuresClosed : ∀ h s, a.structure? h = some s → s.Closed a
  /-- No type is its own base. -/
  baseOther : ∀ h e, a.type? h = some e → e.base ≠ h

namespace Atlas

variable {a b : Atlas}

theorem HasType.mono {h : TypeHandle} (hh : a.HasType h) (hg : a.Grows b) : b.HasType h :=
  hg.types.isSome_get? hh

theorem HasStructure.mono {h : StructureHandle} (hh : a.HasStructure h) (hg : a.Grows b) :
    b.HasStructure h :=
  hg.structures.isSome_get? hh

theorem hasStructure_findStructure {n : String} (hn : n ∈ a.structures.keys) :
    a.HasStructure (a.findStructure n) :=
  Registry.isSome_get?_find hn

theorem findStructure_eq_null_or (a : Atlas) (n : String) :
    a.findStructure n = .null ∨ a.HasStructure (a.findStructure n) := by
  by_cases hn : n ∈ a.structures.keys
  · exact Or.inr (hasStructure_findStructure hn)
  · left
    unfold findStructure
    rw [Registry.find_eq, if_neg hn]

end Atlas

namespace Structure.Closed

variable {a b : Atlas} {s : Structure}

theorem blank (a : Atlas) (n : String) : ({ qualifiedName := n } : Structure).Closed a where
  fields := by simp
  returnTypes := by simp
  parameters := by simp
  parents := by simp
  path := by simp
  templateParameters := by simp

theorem applyDeclaration (hs : s.Closed a) (d : Declaration) :
    (s.applyDeclaration d).Closed a :=
  ⟨hs.fields, hs.returnTypes, hs.parameters, hs.parents, hs.path, hs.templateParameters⟩

end Structure.Closed

namespace Survey

open DeclarationSource

variable {σ : Type u} [DeclarationSource σ] {o : SurveyOptions} {src src' : σ}
  {d : Declaration} {t u : DeclaredType} {a a' b : Atlas} {calls : List Call}
  {uses : List Use} {h x : TypeHandle} {k : String} {e e' : TypeEntry}

/-! ## Types -/

/-- A complete entry under the name `k` and the handle `h`. -/
structure Settled (a : Atlas) (h : TypeHandle) (k : String) (e : TypeEntry) : Prop where
  qualifiedName : e.qualifiedName = k
  identifier : e.identifier = k
  state : e.state = .resolved
  closed : e.Closed a
  baseOther : e.base ≠ h

/-- All types of an atlas are complete, and no name occurs twice. -/
structure AllSettled (a : Atlas) : Prop where
  nodup : a.types.keys.Nodup
  settled : ∀ ⦃h k e⦄, a.types.Holds h k e → Settled a h k e

theorem Settled.mono (hs : Settled a h k e) (hg : a.Grows b) (hk : e.Kept e') :
    Settled b h k e' := by
  have hbase := hs.closed.base.imp_right (·.mono hg)
  have hrecord := hs.closed.baseStructure.imp_right (·.mono hg)
  have harguments : ∀ x ∈ e.templateArguments,
      x.parameter.type = .null ∨ b.HasType x.parameter.type :=
    fun x hx => (hs.closed.templateArguments x hx).imp_right (·.mono hg)
  rcases hk with rfl | rfl
  · exact ⟨hs.qualifiedName, hs.identifier, hs.state, ⟨hbase, hrecord, harguments⟩,
      hs.baseOther⟩
  · exact ⟨hs.qualifiedName, hs.identifier, hs.state, ⟨hbase, hrecord, harguments⟩,
      hs.baseOther⟩

/-- What the use that made an entry has written into it is complete. -/
theorem Filled.settled (hf : Filled o src u a e) (hu : keyOf o src u ∈ a.types.keys) :
    Settled a (a.findType (keyOf o src u)) (keyOf o src u) e where
  qualifiedName := hf.layer.qualifiedName
  identifier := hf.layer.identifier
  state := hf.state
  closed :=
    { base := hf.base.eq_null_or_isSome
      baseStructure := hf.baseStructure.eq_null_or_isSome
      templateArguments := by simp [hf.layer.templateArguments] }
  baseOther := by
    intro he
    have hbase := hf.base
    rw [he] at hbase
    cases hk : baseKey? o src u with
    | none =>
        rw [hk] at hbase
        have hnull : (a.findType (keyOf o src u)).isNull = false :=
          (Registry.isNull_find_eq_false_iff ..).2 hu
        rw [show a.findType (keyOf o src u) = .null from hbase] at hnull
        exact nomatch hnull
    | some k =>
        rw [hk] at hbase
        -- The name of the base is another one, so it is found elsewhere.
        have hne : k ≠ keyOf o src u := by
          have hfilter := Option.filter_eq_some_iff.1 hk
          simpa using hfilter.2
        exact hne (Registry.find_inj hu hbase.2).symm

theorem Enters.settled (he : Enters o src t a calls h a') (ha : AllSettled a) :
    AllSettled a' := by
  have hn := he.nodup ha.nodup
  refine ⟨hn, ?_⟩
  intro x k e hh
  have hx : a'.findType k = x := hh.find hn
  have hk := hh.mem_keys
  rw [he.keys] at hk
  rcases List.mem_append.1 hk with hk | hk
  · obtain ⟨e₀, hh₀⟩ := Registry.exists_holds_find hk
    obtain ⟨e', hh', hkept⟩ := he.kept hh₀
    obtain rfl : a.types.find k = x := (hh'.find hn).symm.trans hx
    obtain rfl := (hh.unique hh').2
    exact (ha.settled hh₀).mono he.grows hkept
  · obtain ⟨u, hu, rfl⟩ := List.mem_map.1 hk
    obtain ⟨e', hh', hf⟩ := he.filled u hu
    subst hx
    obtain rfl := (hh.unique hh').2
    exact hf.settled hh.mem_keys

/-- What all types have is kept by whatever leaves the types alone. -/
theorem AllSettled.of_types_eq (ha : AllSettled a) (hg : a.Grows b)
    (ht : b.types = a.types) : AllSettled b := by
  constructor
  · rw [ht]
    exact ha.nodup
  · intro h k e hh
    exact (ha.settled (ht ▸ hh)).mono hg (.refl e)

theorem Visits.settled (hv : Visits o src d a uses a') (ha : AllSettled a) :
    AllSettled a' := by
  rcases hv.types with ⟨-, hg, ht⟩ | ⟨_, _, b, -, he, hg, ht⟩
  · exact ha.of_types_eq hg ht
  · exact (he.settled ha).of_types_eq hg ht

theorem Runs.settled (hr : Runs o src a uses a' src') (ha : AllSettled a) :
    AllSettled a' := by
  induction hr with
  | done hend => exact ha
  | step hread hv _ ih => exact ih (hv.settled ha)

/-! ## Structures -/

/-- The structure entered under `k` has that name, and what it refers to is in `b`. -/
def ClosedIn (b : Atlas) (k : String) (s : Structure) : Prop :=
  s.qualifiedName = k ∧ s.Closed b

theorem ClosedIn.blank (b : Atlas) (n : String) : ClosedIn b n { qualifiedName := n } :=
  ⟨rfl, .blank b n⟩

theorem Enters.closed (he : Enters o src t a calls h a')
    (ha : a.AllStructures (ClosedIn b)) : a'.AllStructures (ClosedIn b) :=
  he.allStructures (ClosedIn.blank b) (fun d _ hs => ⟨rfl, hs.2.applyDeclaration d⟩) ha

theorem closed_modifyEnclosing {f : Structure → Structure} (src : σ)
    (ha : a.AllStructures (ClosedIn b)) (hf : ∀ k s, ClosedIn b k s → ClosedIn b k (f s)) :
    (modifyEnclosing src f a).AllStructures (ClosedIn b) := by
  rw [modifyEnclosing_eq]
  split
  · exact ha.refine (.blank b _) (hf _)
  · exact ha

theorem Enters.hasType (he : Enters o src t a calls h a') : a'.HasType h := by
  obtain ⟨hmem, rfl⟩ := he.found
  exact Registry.isSome_get?_find hmem

theorem mem_modifyLastWhere {α : Type u} {p : α → Bool} {f : α → α} {xs : List α}
    {y : α} (hy : y ∈ modifyLastWhere p f xs) : y ∈ xs ∨ ∃ x ∈ xs, y = f x := by
  have first : ∀ {xs : List α}, y ∈ modifyLastWhere.first p f xs →
      y ∈ xs ∨ ∃ x ∈ xs, y = f x := by
    intro xs hy
    induction xs with
    | nil => exact Or.inl hy
    | cons x xs ih =>
        rw [modifyLastWhere.first] at hy
        split at hy
        · rcases List.mem_cons.1 hy with rfl | hy
          · exact Or.inr ⟨x, by simp, rfl⟩
          · exact Or.inl (List.mem_cons_of_mem _ hy)
        · rcases List.mem_cons.1 hy with rfl | hy
          · exact Or.inl (by simp)
          · rcases ih hy with hy | ⟨z, hz, rfl⟩
            · exact Or.inl (List.mem_cons_of_mem _ hy)
            · exact Or.inr ⟨z, List.mem_cons_of_mem _ hz, rfl⟩
  rcases first (List.mem_reverse.1 hy) with hy | ⟨x, hx, rfl⟩
  · exact Or.inl (List.mem_reverse.1 hy)
  · exact Or.inr ⟨x, List.mem_reverse.1 hx, rfl⟩

/-- A parameter whose type is there keeps a structure closed. -/
theorem closed_addParameter {s : Structure} {name : String} {p : MethodParameter}
    (hs : s.Closed b) (hp : b.HasType p.type) : (addParameter name p s).Closed b where
  fields := hs.fields
  returnTypes := by
    intro m hm
    rcases mem_modifyLastWhere hm with hm | ⟨m₀, hm₀, rfl⟩
    · exact hs.returnTypes m hm
    · exact hs.returnTypes m₀ hm₀
  parameters := by
    intro m hm q hq
    rcases mem_modifyLastWhere hm with hm | ⟨m₀, hm₀, rfl⟩
    · exact hs.parameters m hm q hq
    · rcases List.mem_append.1 hq with hq | hq
      · exact hs.parameters m₀ hm₀ q hq
      · rwa [List.mem_singleton.1 hq]
  parents := hs.parents
  path := hs.path
  templateParameters := hs.templateParameters

/-- A visit writes no handle that names nothing, in this atlas or any later one. -/
theorem Visits.closed (hv : Visits o src d a uses a') (hg : a'.Grows b)
    (ha : a.AllStructures (ClosedIn b)) : a'.AllStructures (ClosedIn b) := by
  have hold := hv.grows.trans hg
  cases hv with
  | idle hi => exact ha
  | record hk =>
      rw [visitStructure_eq]
      refine ha.refine (.blank b _) fun s hs => ⟨rfl, { hs.2 with path := ?_ }⟩
      intro n hn
      obtain ⟨scope, -, rfl⟩ := List.mem_map.1 hn
      unfold pathNode
      split
      · exact (a.findStructure_eq_null_or _).imp_right (·.mono hold)
      · exact Or.inl rfl
  | base hk =>
      rw [visitBase_eq] at hg ⊢
      have hparent : b.HasStructure
          ((a.enterStructure d.qualifiedName).2.2.findStructure d.qualifiedName) :=
        (Atlas.hasStructure_findStructure (Registry.mem_keys_enter ..)).mono
          ((grows_modifyEnclosing ..).trans hg)
      refine closed_modifyEnclosing _ (ha.enterStructure (.blank b _)) fun k s hs =>
        ⟨hs.1, { hs.2 with parents := ?_ }⟩
      intro p hp
      rcases List.mem_append.1 hp with hp | hp
      · exact hs.2.parents p hp
      · rwa [List.mem_singleton.1 hp]
  | field hk he =>
      have htype := he.hasType.mono ((grows_modifyEnclosing ..).trans hg)
      refine closed_modifyEnclosing _ (he.closed ha) fun k s hs =>
        ⟨hs.1, { hs.2 with fields := ?_ }⟩
      intro f hf
      rcases List.mem_append.1 hf with hf | hf
      · exact hs.2.fields f hf
      · rw [List.mem_singleton.1 hf]
        exact htype
  | method hk hm he =>
      have htype := he.hasType.mono ((grows_modifyEnclosing ..).trans hg)
      refine closed_modifyEnclosing _ (he.closed ha) fun k s hs =>
        ⟨hs.1, { hs.2 with returnTypes := ?_, parameters := ?_ }⟩
      · intro m hm
        rcases List.mem_append.1 hm with hm | hm
        · exact hs.2.returnTypes m hm
        · rw [List.mem_singleton.1 hm]
          exact htype
      · intro m hm q hq
        rcases List.mem_append.1 hm with hm | hm
        · exact hs.2.parameters m hm q hq
        · rw [List.mem_singleton.1 hm] at hq
          exact nomatch hq
  | parameter hk ho he =>
      have htype := he.hasType.mono ((Atlas.Grows.modifyStructure ..).trans hg)
      exact (he.closed ha).modifyStructure fun k s _ hs =>
        ⟨hs.1, closed_addParameter hs.2 htype⟩

theorem Runs.closed (hr : Runs o src a uses a' src') (hg : a'.Grows b)
    (ha : a.AllStructures (ClosedIn b)) : a'.AllStructures (ClosedIn b) := by
  induction hr with
  | done hend => exact ha
  | step hread hv hr ih => exact ih hg (hv.closed (hr.grows.trans hg) ha)

theorem nodup_modifyEnclosing (src : σ) (f : Structure → Structure)
    (ha : a.structures.keys.Nodup) : (modifyEnclosing src f a).structures.keys.Nodup := by
  rw [modifyEnclosing_eq]
  split
  · exact Atlas.nodup_refine ha _
  · exact ha

theorem Visits.nodup_structures (hv : Visits o src d a uses a')
    (ha : a.structures.keys.Nodup) : a'.structures.keys.Nodup := by
  cases hv with
  | idle hi => exact ha
  | record hk => exact Atlas.nodup_refine ha _
  | base hk =>
      rw [visitBase_eq]
      exact nodup_modifyEnclosing _ _ (Registry.nodup_keys_enter ha ..)
  | field hk he => exact nodup_modifyEnclosing _ _ (he.nodup_structures ha)
  | method hk hm he => exact nodup_modifyEnclosing _ _ (he.nodup_structures ha)
  | parameter hk ho he =>
      rw [Atlas.structures_modifyStructure, Registry.keys_modify]
      exact he.nodup_structures ha

theorem Runs.nodup_structures (hr : Runs o src a uses a' src')
    (ha : a.structures.keys.Nodup) : a'.structures.keys.Nodup := by
  induction hr with
  | done hend => exact ha
  | step hread hv _ ih => exact ih (hv.nodup_structures ha)

/-! ## The whole -/

theorem allSettled_empty (id : ArenaId) : AllSettled (Atlas.empty id) := by
  constructor
  · exact List.nodup_nil
  · intro h k e hh
    exact absurd hh.mem_keys (List.not_mem_nil)

/-- Settled types and closed structures are all there is to reference integrity. -/
theorem referenceIntegrity (ht : AllSettled a) (hn : a.structures.keys.Nodup)
    (hs : a.AllStructures (ClosedIn a)) : ReferenceIntegrity a where
  resolved h e he := by
    obtain ⟨k, hk⟩ := Registry.get?_eq_some_iff.1 he
    exact (ht.settled hk).state
  typeOfName n e he := by
    have hk := ht.settled (Registry.holds_of_get?_find he)
    exact ⟨hk.qualifiedName, hk.identifier⟩
  structureOfName n s he := (hs (Registry.holds_of_get?_find he)).1
  findType h e he := by
    obtain ⟨k, hk⟩ := Registry.get?_eq_some_iff.1 he
    rw [(ht.settled hk).qualifiedName]
    exact hk.find ht.nodup
  findStructure h s he := by
    obtain ⟨k, hk⟩ := Registry.get?_eq_some_iff.1 he
    rw [(hs hk).1]
    exact hk.find hn
  typeNames := by
    rw [Registry.map_values_eq_keys fun _ _ _ hk => (ht.settled hk).qualifiedName]
    exact ht.nodup
  structureNames := by
    rw [Registry.map_values_eq_keys fun _ _ _ hk => (hs hk).1]
    exact hn
  typesClosed h e he := by
    obtain ⟨k, hk⟩ := Registry.get?_eq_some_iff.1 he
    exact (ht.settled hk).closed
  structuresClosed h s he := by
    obtain ⟨k, hk⟩ := Registry.get?_eq_some_iff.1 he
    exact (hs hk).2
  baseOther h e he := by
    obtain ⟨k, hk⟩ := Registry.get?_eq_some_iff.1 he
    exact (ht.settled hk).baseOther

theorem Runs.integrity {id : ArenaId} (hr : Runs o src (Atlas.empty id) uses a src') :
    ReferenceIntegrity a := by
  have hempty : (Atlas.empty id).AllStructures (ClosedIn a) := by
    intro h k s hh
    exact absurd hh.mem_keys (List.not_mem_nil)
  exact referenceIntegrity (hr.settled (allSettled_empty id))
    (hr.nodup_structures List.nodup_nil) (hr.closed (.refl a) hempty)

/-- Every atlas that is built from any source has reference integrity. -/
theorem build_referenceIntegrity {fuel : Nat} {id : ArenaId}
    (hb : build (.standard o) fuel src id = some (a, src')) : ReferenceIntegrity a := by
  obtain ⟨uses, hr⟩ := runs_of_build hb
  exact hr.integrity

theorem referenceIntegrity_linked : ∃ a s',
    build (.standard { modelMethods := true }) 9 Script.linked ⟨1⟩ = some (a, s') ∧
      a.types.keys = ["Id", "unsigned int", "Node *", "Node", "unsigned int[4]"] ∧
      a.structures.values.map (fun s =>
          (s.fields.map (·.type), s.parents, s.methods.map fun m => m.parameters.map (·.type))) =
        [([a.findType "Id"], [], []),
          ([a.findType "Node *", a.findType "unsigned int[4]"], [a.findStructure "Base"],
            [[a.findType "Id"]])] ∧
      ReferenceIntegrity a := by
  have hbuilt : ∃ r ∈ build (.standard { modelMethods := true }) 9 Script.linked ⟨1⟩,
      r.1.types.keys = ["Id", "unsigned int", "Node *", "Node", "unsigned int[4]"] ∧
      r.1.structures.values.map (fun s =>
          (s.fields.map (·.type), s.parents, s.methods.map fun m => m.parameters.map (·.type))) =
        [([r.1.findType "Id"], [], []),
          ([r.1.findType "Node *", r.1.findType "unsigned int[4]"], [r.1.findStructure "Base"],
            [[r.1.findType "Id"]])] := by
    decide +kernel
  obtain ⟨⟨a, s'⟩, hb, hkeys, hmembers⟩ := hbuilt
  exact ⟨a, s', hb, hkeys, hmembers, build_referenceIntegrity hb⟩

end Survey

end DeclAtlas
