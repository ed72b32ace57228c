import DeclAtlas.Proofs.Survey.Integrity

/-!
# No handle dangles

Whatever the tables of a survey say, a handle that is stored anywhere in its atlas is null or
names something of the same atlas. The usual tables promise more, that the type of a field is
never null for one; but a kind of type may have no rule, and then its uses are null.

An entry is looked at through the handles in it, as two lists. Each operation on an atlas
either leaves the lists of an entry as they are or adds handles that the atlas knows, and an
atlas that grows forgets none.

## Main results

* `NoneDangles.modifyType`, `NoneDangles.refine`: what changing an entry asks for.
* `noneDangles_resolve`, `noneDangles_visit`: what each step keeps.
* `noneDangles_of_build`: no handle dangles in an atlas that any tables have built.
-/

universe u v

namespace DeclAtlas

/-! ## The handles in an entry -/

def TypeEntry.typeHandles (e : TypeEntry) : List TypeHandle :=
  e.base :: e.templateArguments.map (·.parameter.type)

def TypeEntry.structureHandles (e : TypeEntry) : List StructureHandle := [e.baseStructure]

def Method.typeHandles (m : Method) : List TypeHandle :=
  m.returnType :: m.parameters.map (·.type)

def Structure.typeHandles (s : Structure) : List TypeHandle :=
  s.templateParameters.map (·.type) ++ s.fields.map (·.type) ++
    s.methods.flatMap Method.typeHandles

def Structure.structureHandles (s : Structure) : List StructureHandle :=
  s.parents ++ s.path.map (·.structureHandle)

/-- What is among the values of a registry is held under some name. -/
theorem Registry.exists_holds_of_mem {μ : Type u} {α : Type v} {r : Registry μ α} {x : α}
    (hx : x ∈ r.values) : ∃ h k, r.Holds h k x := by
  obtain ⟨i, hi⟩ := List.mem_iff_getElem?.1 hx
  have hget := (r.get?_entry i).trans hi
  exact ⟨_, Registry.get?_eq_some_iff.1 hget⟩

namespace Atlas

/-- Each of the handles is null or names something of the atlas. -/
structure Knows (a : Atlas) (ts : List TypeHandle) (ss : List StructureHandle) : Prop where
  types : ∀ h ∈ ts, h = .null ∨ a.HasType h
  structures : ∀ h ∈ ss, h = .null ∨ a.HasStructure h

/-- Each handle in an entry is null or names something of the same atlas. -/
structure NoneDangles (a : Atlas) : Prop where
  types : a.AllTypes fun _ e => a.Knows e.typeHandles e.structureHandles
  structures : a.AllStructures fun _ s => a.Knows s.typeHandles s.structureHandles

variable {a b : Atlas} {ts ts' : List TypeHandle} {ss ss' : List StructureHandle}

namespace Knows

theorem nil (a : Atlas) : a.Knows [] [] := ⟨by simp, by simp⟩

theorem ofType {h : TypeHandle} (hh : h = .null ∨ a.HasType h) : a.Knows [h] [] :=
  ⟨by simpa using hh, by simp⟩

theorem ofStructure {h : StructureHandle} (hh : h = .null ∨ a.HasStructure h) :
    a.Knows [] [h] :=
  ⟨by simp, by simpa using hh⟩

theorem mono (hk : a.Knows ts ss) (hg : a.Grows b) : b.Knows ts ss :=
  ⟨fun h hh => (hk.types h hh).imp_right (·.mono hg),
    fun h hh => (hk.structures h hh).imp_right (·.mono hg)⟩

theorem append (hk : a.Knows ts ss) (hk' : a.Knows ts' ss') :
    a.Knows (ts ++ ts') (ss ++ ss') :=
  ⟨fun h hh => (List.mem_append.1 hh).elim (hk.types h) (hk'.types h),
    fun h hh => (List.mem_append.1 hh).elim (hk.structures h) (hk'.structures h)⟩

theorem subset (hk : a.Knows ts ss) (ht : ts' ⊆ ts) (hs : ss' ⊆ ss) : a.Knows ts' ss' :=
  ⟨fun h hh => hk.types h (ht hh), fun h hh => hk.structures h (hs hh)⟩

theorem flatMap {α : Type u} {xs : List α} {f : α → List TypeHandle}
    {g : α → List StructureHandle} (hk : ∀ x ∈ xs, a.Knows (f x) (g x)) :
    a.Knows (xs.flatMap f) (xs.flatMap g) := by
  constructor
  · intro h hh
    obtain ⟨x, hx, hh⟩ := List.mem_flatMap.1 hh
    exact (hk x hx).types h hh
  · intro h hh
    obtain ⟨x, hx, hh⟩ := List.mem_flatMap.1 hh
    exact (hk x hx).structures h hh

end Knows

namespace NoneDangles

theorem knows_type (ha : a.NoneDangles) {e : TypeEntry} (he : e ∈ a.types.values) :
    a.Knows e.typeHandles e.structureHandles := by
  obtain ⟨h, k, hh⟩ := Registry.exists_holds_of_mem he
  exact ha.types hh

theorem knows_structure (ha : a.NoneDangles) {s : Structure} (hs : s ∈ a.structures.values) :
    a.Knows s.typeHandles s.structureHandles := by
  obtain ⟨h, k, hh⟩ := Registry.exists_holds_of_mem hs
  exact ha.structures hh

theorem empty (id : ArenaId) : (Atlas.empty id).NoneDangles :=
  ⟨fun _ _ _ hh => absurd hh.mem_keys List.not_mem_nil,
    fun _ _ _ hh => absurd hh.mem_keys List.not_mem_nil⟩

theorem enterType (ha : a.NoneDangles) (n : String) : (a.enterType n).2.2.NoneDangles := by
  have hg := Grows.enterType a n
  constructor
  · intro h k e hh
    rcases Registry.holds_enter.1 hh with hh | ⟨-, -, -, rfl⟩
    · exact (ha.types hh).mono hg
    · exact ⟨by simp [TypeEntry.typeHandles], by simp [TypeEntry.structureHandles]⟩
  · exact fun h k s hh => (ha.structures hh).mono hg

theorem enterStructure (ha : a.NoneDangles) (n : String) :
    (a.enterStructure n).2.2.NoneDangles := by
  have hg := Grows.enterStructure a n
  constructor
  · exact fun h k e hh => (ha.types hh).mono hg
  · intro h k s hh
    rcases Registry.holds_enter.1 hh with hh | ⟨-, -, -, rfl⟩
    · exact (ha.structures hh).mono hg
    · exact ⟨by simp [Structure.typeHandles], by simp [Structure.structureHandles]⟩

/-- A type entry may be given handles that the atlas knows. -/
theorem modifyType (ha : a.NoneDangles) (hk : a.Knows ts ss) (h : TypeHandle)
    {f : TypeEntry → TypeEntry} (ht : ∀ e, (f e).typeHandles ⊆ e.typeHandles ++ ts)
    (hs : ∀ e, (f e).structureHandles ⊆ e.structureHandles ++ ss) :
    (a.modifyType h f).NoneDangles := by
  have hg := Grows.modifyType a h f
  have hall := AllTypes.modifyType (h := h) ha.types
    fun k e _ he => (he.append hk).subset (ht e) (hs e)
  exact ⟨fun _ _ _ hh => (hall hh).mono hg, fun _ _ _ hh => (ha.structures hh).mono hg⟩

/-- What keeps the handles of an entry does no harm. -/
theorem modifyType_of_same (ha : a.NoneDangles) (h : TypeHandle) {f : TypeEntry → TypeEntry}
    (ht : ∀ e, (f e).typeHandles = e.typeHandles)
    (hs : ∀ e, (f e).structureHandles = e.structureHandles) :
    (a.modifyType h f).NoneDangles :=
  ha.modifyType (.nil a) h (fun e => by simp [ht e]) fun e => by simp [hs e]

/-- A structure may be given handles that the atlas knows. -/
theorem modifyStructure (ha : a.NoneDangles) (hk : a.Knows ts ss) (h : StructureHandle)
    {f : Structure → Structure} (ht : ∀ s, (f s).typeHandles ⊆ s.typeHandles ++ ts)
    (hs : ∀ s, (f s).structureHandles ⊆ s.structureHandles ++ ss) :
    (a.modifyStructure h f).NoneDangles := by
  have hg := Grows.modifyStructure a h f
  have hall := AllStructures.modifyStructure (h := h) ha.structures
    fun k s _ hs' => (hs'.append hk).subset (ht s) (hs s)
  exact ⟨fun _ _ _ hh => (ha.types hh).mono hg, fun _ _ _ hh => (hall hh).mono hg⟩

theorem refine (ha : a.NoneDangles) (hk : a.Knows ts ss) (n : String)
    {f : Structure → Structure} (ht : ∀ s, (f s).typeHandles ⊆ s.typeHandles ++ ts)
    (hs : ∀ s, (f s).structureHandles ⊆ s.structureHandles ++ ss) :
    (a.refine n f).NoneDangles :=
  (ha.enterStructure n).modifyStructure (hk.mono (.enterStructure ..)) _ ht hs

end NoneDangles

end Atlas

namespace Survey

open DeclarationSource Atlas

variable {σ : Type u} [DeclarationSource σ] {rules : SurveyRules} {src src' : σ}
  {d : Declaration} {t : DeclaredType} {a b : Atlas} {h x : TypeHandle} {fuel : Nat}

/-! ## Entering types -/

theorem noneDangles_linkBase (ha : a.NoneDangles) {base : TypeHandle}
    (hbase : a.Knows [base] []) (h : TypeHandle) : (linkBase h base a).NoneDangles := by
  unfold linkBase
  split
  · exact ha
  · refine ha.modifyType hbase h (fun e x hx => ?_) fun e => List.subset_append_left ..
    rcases List.mem_cons.1 hx with rfl | hx
    · simp
    · exact List.mem_append_left _ (List.mem_cons_of_mem _ hx)

theorem noneDangles_linkStructure (ha : a.NoneDangles) (h : TypeHandle) (d : Declaration) :
    (linkStructure h d a).NoneDangles := by
  unfold linkStructure
  split
  · have hentered := ha.enterStructure d.qualifiedName
    have hnamed := hentered.modifyStructure (f := (·.applyDeclaration d)) (.nil _)
      (a.enterStructure d.qualifiedName).1 (fun s => List.subset_append_left ..)
      fun s => List.subset_append_left ..
    have hknown : (a.enterStructure d.qualifiedName).2.2.HasStructure
        (a.enterStructure d.qualifiedName).1 := by
      rw [enterStructure_fst]
      exact hasStructure_findStructure (Registry.mem_keys_enter ..)
    refine hnamed.modifyType (.ofStructure (Or.inr (hknown.mono (.modifyStructure ..)))) h
      (fun e => List.subset_append_left ..) fun e x hx => List.mem_append_right _ hx
  · exact ha

theorem noneDangles_atEveryUse (ha : a.NoneDangles) (rule : TypeRule) (h : TypeHandle) :
    (atEveryUse rule h a).NoneDangles := by
  cases rule with
  | enumeration =>
      exact ha.modifyType_of_same h (fun _ => rfl) fun _ => rfl
  | plain | element | record | typeAlias => exact ha

/-- What is written when an entry is complete. -/
theorem noneDangles_complete (ha : a.NoneDangles) (rule : TypeRule) (h : TypeHandle) :
    (atEveryUse rule h (a.modifyType h complete)).NoneDangles :=
  noneDangles_atEveryUse (ha.modifyType_of_same h (f := complete) (fun _ => rfl) fun _ => rfl)
    rule h

theorem grows_complete (rule : TypeRule) (h : TypeHandle) (a : Atlas) :
    a.Grows (atEveryUse rule h (a.modifyType h complete)) :=
  (Grows.modifyType ..).trans (grows_atEveryUse ..)

theorem noneDangles_linkRecord (ha : a.NoneDangles) (rule : TypeRule) (h : TypeHandle)
    (d : Declaration) :
    (if rule = .record then linkStructure h d a else a).NoneDangles ∧
      a.Grows (if rule = .record then linkStructure h d a else a) := by
  split
  · exact ⟨noneDangles_linkStructure ha h d, grows_linkStructure h d a⟩
  · exact ⟨ha, .refl a⟩

/-- Entering a use leaves no handle that dangles, and the atlas knows the handle of the use. -/
theorem noneDangles_resolve (ha : a.NoneDangles) (hr : resolve rules src fuel t a = some (x, b)) :
    b.NoneDangles ∧ a.Grows b ∧ b.Knows [x] [] := by
  induction fuel generalizing t a x b with
  | zero => exact nomatch hr
  | succ fuel ih =>
      rw [resolve] at hr
      cases hrule : rules.types.handler? t.kind with
      | none =>
          rw [hrule] at hr
          cases hr
          exact ⟨ha, .refl _, .ofType (Or.inl rfl)⟩
      | some rule =>
          rw [hrule] at hr
          dsimp only at hr
          have hentered := ha.enterType (canonical rules src t).identifier
          have hgrown := Grows.enterType a (canonical rules src t).identifier
          have hfound : (a.enterType (canonical rules src t).identifier).2.2.HasType
              (a.enterType (canonical rules src t).identifier).1 := by
            rw [enterType_fst]
            exact Registry.isSome_get?_find (Registry.mem_keys_enter ..)
          generalize a.enterType (canonical rules src t).identifier = entered
            at hr hentered hgrown hfound
          obtain ⟨h, created, a₁⟩ := entered
          dsimp only at hr hentered hgrown hfound
          cases created with
          | false =>
              cases hr
              have hg := grows_atEveryUse rule x a₁
              exact ⟨noneDangles_atEveryUse hentered rule x, hgrown.trans hg,
                .ofType (Or.inr (hfound.mono hg))⟩
          | true =>
              rw [if_pos rfl] at hr
              -- The entry stands with its base unset while the layers below are entered.
              have hopen := hentered.modifyType_of_same h
                (f := openLayer t.kind (canonical rules src t)
                  (isConst src (canonical rules src t))) (fun _ => rfl) fun _ => rfl
              have hg₁ := Grows.modifyType a₁ h
                (openLayer t.kind (canonical rules src t) (isConst src (canonical rules src t)))
              cases hbelow : below? rule src (canonical rules src t) with
              | some target =>
                  rw [hbelow] at hr
                  obtain ⟨⟨base, a₂⟩, hrec, heq⟩ := Option.map_eq_some_iff.1 hr
                  cases heq
                  obtain ⟨ha₂, hg₂, hbase⟩ := ih hopen hrec
                  have hg := hg₁.trans (hg₂.trans ((grows_linkBase x base a₂).trans
                    (grows_complete rule x _)))
                  exact ⟨noneDangles_complete (noneDangles_linkBase ha₂ hbase x) rule x,
                    hgrown.trans hg, .ofType (Or.inr (hfound.mono hg))⟩
              | none =>
                  rw [hbelow] at hr
                  cases hr
                  obtain ⟨ha₂, hg₂⟩ := noneDangles_linkRecord hopen rule x
                    (typeDeclaration src (canonical rules src t))
                  have hg := hg₁.trans (hg₂.trans (grows_complete rule x _))
                  exact ⟨noneDangles_complete ha₂ rule x, hgrown.trans hg,
                    .ofType (Or.inr (hfound.mono hg))⟩

/-! ## Visiting declarations -/

theorem knows_pathOf (src : σ) (a : Atlas) :
    a.Knows [] ((pathOf src a).map (·.structureHandle)) := by
  refine ⟨by simp, fun h hh => ?_⟩
  obtain ⟨n, hn, rfl⟩ := List.mem_map.1 hh
  obtain ⟨scope, -, rfl⟩ := List.mem_map.1 hn
  unfold pathNode
  dsimp only
  split
  · exact a.findStructure_eq_null_or _
  · exact Or.inl rfl

theorem noneDangles_modifyEnclosing {ts : List TypeHandle} {ss : List StructureHandle}
    (ha : a.NoneDangles) (hk : a.Knows ts ss) (src : σ) {f : Structure → Structure}
    (ht : ∀ s, (f s).typeHandles ⊆ s.typeHandles ++ ts)
    (hs : ∀ s, (f s).structureHandles ⊆ s.structureHandles ++ ss) :
    (modifyEnclosing src f a).NoneDangles := by
  rw [modifyEnclosing_eq]
  split
  · exact ha.refine hk _ ht hs
  · exact ha

theorem noneDangles_visitStructure (ha : a.NoneDangles) (src : σ) (d : Declaration) :
    (visitStructure src d a).NoneDangles ∧ a.Grows (visitStructure src d a) := by
  rw [visitStructure_eq]
  refine ⟨?_, .refine ..⟩
  refine ha.refine (knows_pathOf src a) _ (fun s => List.subset_append_left ..) fun s x hx => ?_
  rcases List.mem_append.1 hx with hx | hx
  · exact List.mem_append_left _ (List.mem_append_left _ hx)
  · exact List.mem_append_right _ hx

theorem noneDangles_visitBase (ha : a.NoneDangles) (src : σ) (d : Declaration) :
    (visitBase src d a).NoneDangles ∧ a.Grows (visitBase src d a) := by
  rw [visitBase_eq]
  refine ⟨?_, (Grows.enterStructure ..).trans (grows_modifyEnclosing ..)⟩
  have hparent : (a.enterStructure d.qualifiedName).2.2.HasStructure
      ((a.enterStructure d.qualifiedName).2.2.findStructure d.qualifiedName) :=
    hasStructure_findStructure (Registry.mem_keys_enter ..)
  refine noneDangles_modifyEnclosing (ha.enterStructure _) (.ofStructure (Or.inr hparent)) src
    (fun s => List.subset_append_left ..) fun s x hx => ?_
  simp only [Structure.structureHandles, addParent, List.mem_append] at hx ⊢
  tauto

theorem typeHandles_addField (f : Field) (s : Structure) :
    (addField f s).typeHandles ⊆ s.typeHandles ++ [f.type] := by
  intro x hx
  simp only [Structure.typeHandles, addField, List.map_append, List.map_cons, List.map_nil,
    List.mem_append] at hx ⊢
  tauto

theorem typeHandles_addMethod {m : Method} (hm : m.parameters = []) (s : Structure) :
    (addMethod m s).typeHandles ⊆ s.typeHandles ++ [m.returnType] := by
  have hnew : m.typeHandles = [m.returnType] := by simp [Method.typeHandles, hm]
  intro x hx
  simp only [Structure.typeHandles, addMethod, List.flatMap_append, List.flatMap_cons,
    List.flatMap_nil, List.append_nil, hnew, List.mem_append] at hx ⊢
  tauto

theorem typeHandles_addParameter (name : String) (p : MethodParameter) (s : Structure) :
    (addParameter name p s).typeHandles ⊆ s.typeHandles ++ [p.type] := by
  intro x hx
  have hmethod : x ∈ (addParameter name p s).methods.flatMap Method.typeHandles →
      x ∈ s.methods.flatMap Method.typeHandles ∨ x = p.type := by
    intro hx
    obtain ⟨m, hm, hxm⟩ := List.mem_flatMap.1 hx
    rcases mem_modifyLastWhere hm with hm | ⟨m₀, hm₀, rfl⟩
    · exact Or.inl (List.mem_flatMap.2 ⟨m, hm, hxm⟩)
    · have hold : x ∈ m₀.typeHandles ∨ x = p.type := by
        simp only [Method.typeHandles, List.map_append, List.map_cons, List.map_nil,
          List.mem_cons, List.mem_append, List.not_mem_nil, or_false] at hxm ⊢
        tauto
      exact hold.imp_left fun h => List.mem_flatMap.2 ⟨m₀, hm₀, h⟩
  rcases List.mem_append.1 hx with hx | hx
  · exact List.mem_append_left _ (List.mem_append_left _ hx)
  · rcases hmethod hx with hx | hx
    · exact List.mem_append_left _ (List.mem_append_right _ hx)
    · exact List.mem_append_right _ (List.mem_singleton.2 hx)

theorem noneDangles_visitField (ha : a.NoneDangles)
    (hv : visitField rules src fuel d a = some b) : b.NoneDangles ∧ a.Grows b := by
  obtain ⟨⟨x, a₁⟩, hr, rfl⟩ := Option.map_eq_some_iff.1 hv
  obtain ⟨ha₁, hg, hx⟩ := noneDangles_resolve ha hr
  refine ⟨?_, hg.trans (grows_modifyEnclosing ..)⟩
  exact noneDangles_modifyEnclosing ha₁ hx src (typeHandles_addField (fieldFor src d x))
    fun s => List.subset_append_left ..

theorem noneDangles_visitMethod (ha : a.NoneDangles)
    (hv : visitMethod rules src fuel d a = some b) : b.NoneDangles ∧ a.Grows b := by
  unfold visitMethod at hv
  split at hv
  · obtain ⟨⟨x, a₁⟩, hr, rfl⟩ := Option.map_eq_some_iff.1 hv
    obtain ⟨ha₁, hg, hx⟩ := noneDangles_resolve ha hr
    refine ⟨?_, hg.trans (grows_modifyEnclosing ..)⟩
    exact noneDangles_modifyEnclosing ha₁ hx src
      (typeHandles_addMethod (m := methodFor src d x) rfl) fun s => List.subset_append_left ..
  · cases hv
    exact ⟨ha, .refl a⟩

theorem noneDangles_visitParameter (ha : a.NoneDangles)
    (hv : visitParameter rules src fuel d a = some b) : b.NoneDangles ∧ a.Grows b := by
  unfold visitParameter at hv
  split at hv
  · dsimp only at hv
    split at hv
    · obtain ⟨⟨x, a₁⟩, hr, rfl⟩ := Option.map_eq_some_iff.1 hv
      obtain ⟨ha₁, hg, hx⟩ := noneDangles_resolve ha hr
      refine ⟨?_, hg.trans (.modifyStructure ..)⟩
      exact ha₁.modifyStructure hx _ (typeHandles_addParameter _ _)
        fun s => List.subset_append_left ..
    · cases hv
      exact ⟨ha, .refl a⟩
  · cases hv
    exact ⟨ha, .refl a⟩

/-- A visit leaves no handle that dangles. -/
theorem noneDangles_visit (ha : a.NoneDangles) (hv : visit rules src fuel d a = some b) :
    b.NoneDangles ∧ a.Grows b := by
  unfold visit at hv
  split at hv
  · rename_i rule _
    cases rule with
    | ignore =>
        cases hv
        exact ⟨ha, .refl a⟩
    | enterStructure =>
        cases hv
        exact noneDangles_visitStructure ha src d
    | addParent =>
        cases hv
        exact noneDangles_visitBase ha src d
    | addField => exact noneDangles_visitField ha hv
    | addMethod => exact noneDangles_visitMethod ha hv
    | addParameter => exact noneDangles_visitParameter ha hv
  · cases hv
    exact ⟨ha, .refl a⟩

/-! ## Building -/

theorem noneDangles_drain {r : Atlas × σ} (ha : a.NoneDangles)
    (hd : drain rules fuel src a = some r) : r.1.NoneDangles ∧ a.Grows r.1 := by
  induction fuel generalizing src a with
  | zero => exact nomatch hd
  | succ fuel ih =>
      rw [drain] at hd
      split at hd
      · cases hd
        exact ⟨ha, .refl a⟩
      · obtain ⟨b, hv, hd⟩ := Option.bind_eq_some_iff.1 hd
        obtain ⟨hb, hg⟩ := noneDangles_visit ha hv
        obtain ⟨hr, hg'⟩ := ih hb hd
        exact ⟨hr, hg.trans hg'⟩

/-- No handle dangles in an atlas that any tables have built. -/
theorem noneDangles_of_build {id : ArenaId} (hb : build rules fuel src id = some (a, src')) :
    a.NoneDangles :=
  (noneDangles_drain (.empty id) hb).1

/-- An atlas is built in the arenas it was begun in. -/
theorem id_of_build {id : ArenaId} (hb : build rules fuel src id = some (a, src')) :
    a.structures.arena.id = id ∧ a.types.arena.id = id := by
  have hg := (noneDangles_drain (.empty id) hb).2
  exact ⟨hg.structures.id, hg.types.id⟩

end Survey

end DeclAtlas
