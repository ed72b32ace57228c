import DeclAtlas.Proofs.Survey.Entering

/-!
# What a use makes of its entry

The use that makes an entry decides everything that is written in it: the layer of its own
at once, the links to what lies below and to a structure before it is complete. Later uses
leave the entry alone, apart from marking it as not modelled. So the entries of an atlas
are told by the uses that made them, and one statement about a single derivation carries
all that is known of types.

The base of an entry is looked up while the entries above it are still incomplete. That does
no harm: it is found by name, and a name keeps its handle.

## Main results

* `Enters.grows`, `Enters.found`: the handle of a use is the one found under its name.
* `Enters.keys`: the names added are those of the uses that made entries, in order.
* `Enters.kept`: what was there stays, but for the mark.
* `Enters.filled`: every use that made an entry has filled it in.
* `Enters.structures_induction`: what entering types does to structures.
-/

universe u v

namespace DeclAtlas

/-- The entry `e'` is `e`, or `e` marked as not modelled. -/
def TypeEntry.Kept (e e' : TypeEntry) : Prop := e' = e ∨ e' = { e with kind := .unhandled }

namespace TypeEntry.Kept

variable {e e' e'' : TypeEntry}

theorem refl (e : TypeEntry) : e.Kept e := Or.inl rfl

theorem trans (h₁ : e.Kept e') (h₂ : e'.Kept e'') : e.Kept e'' := by
  rcases h₁ with rfl | rfl
  · exact h₂
  · rcases h₂ with rfl | rfl
    · exact Or.inr rfl
    · exact Or.inr rfl

theorem base_eq (h : e.Kept e') : e'.base = e.base := by
  rcases h with rfl | rfl <;> rfl

theorem baseStructure_eq (h : e.Kept e') : e'.baseStructure = e.baseStructure := by
  rcases h with rfl | rfl <;> rfl

theorem state_eq (h : e.Kept e') : e'.state = e.state := by
  rcases h with rfl | rfl <;> rfl

end TypeEntry.Kept

namespace Survey

open DeclarationSource

variable {σ : Type u} [DeclarationSource σ] {o : SurveyOptions} {src : σ}
  {t u target : DeclaredType} {a a' : Atlas} {calls : List Call} {h x base : TypeHandle}
  {k : String} {e e' : TypeEntry}

/-! ## The contents of an entry -/

/-- The name of the entry below the one of `u`, unless there is none or it is the same. -/
def baseKey? (o : SurveyOptions) (src : σ) (u : DeclaredType) : Option String :=
  ((targetOf? o src u).map (keyOf o src)).filter (· ≠ keyOf o src u)

/-- The name of the structure that a use of a record is linked to. -/
def recordName? (o : SurveyOptions) (src : σ) (u : DeclaredType) : Option String :=
  let d := typeDeclaration src (formOf o src u)
  if ruleOf u.kind = .record ∧ d.kind.isStructure = true then some d.qualifiedName else none

/-- The layer of its own that the use `u` writes into its entry. -/
structure OwnLayer (o : SurveyOptions) (src : σ) (u : DeclaredType) (e : TypeEntry) :
    Prop where
  qualifiedName : e.qualifiedName = keyOf o src u
  identifier : e.identifier = keyOf o src u
  dimensions : e.dimensions = (formOf o src u).dimensions
  isConst : e.isConst = DeclarationSource.isConst src (formOf o src u)
  kind : e.kind = u.kind ∨ e.kind = .unhandled
  templateArguments : e.templateArguments = []

/-- The entry `e` of the atlas `a` is what the use `u` makes of it. -/
structure Filled (o : SurveyOptions) (src : σ) (u : DeclaredType) (a : Atlas)
    (e : TypeEntry) : Prop where
  layer : OwnLayer o src u e
  base : a.types.Finds (baseKey? o src u) e.base
  baseStructure : a.structures.Finds (recordName? o src u) e.baseStructure
  state : e.state = .resolved

theorem OwnLayer.kept (hl : OwnLayer o src u e) (hk : e.Kept e') : OwnLayer o src u e' := by
  rcases hk with rfl | rfl
  · exact hl
  · exact ⟨hl.qualifiedName, hl.identifier, hl.dimensions, hl.isConst, Or.inr rfl,
      hl.templateArguments⟩

/-- Neither a base nor being complete is part of the layer. -/
theorem OwnLayer.withBase (hl : OwnLayer o src u e) (base : TypeHandle) :
    OwnLayer o src u { e with base := base } :=
  ⟨hl.qualifiedName, hl.identifier, hl.dimensions, hl.isConst, hl.kind, hl.templateArguments⟩

theorem OwnLayer.complete (hl : OwnLayer o src u e) : OwnLayer o src u (complete e) :=
  ⟨hl.qualifiedName, hl.identifier, hl.dimensions, hl.isConst, hl.kind, hl.templateArguments⟩

theorem ownLayer_openLayer (o : SurveyOptions) (src : σ) (t : DeclaredType) :
    OwnLayer o src t (openLayer t.kind (formOf o src t) (isConst src (formOf o src t))
      { qualifiedName := keyOf o src t }) :=
  ⟨rfl, rfl, rfl, rfl, Or.inl rfl, rfl⟩

/-- An entry stays filled in while the atlas grows. -/
theorem Filled.mono (hf : Filled o src u a e) (hg : a.Grows a') (hk : e.Kept e') :
    Filled o src u a' e' where
  layer := hf.layer.kept hk
  base := by
    rw [hk.base_eq]
    exact hg.types.finds hf.base
  baseStructure := by
    rw [hk.baseStructure_eq]
    exact hg.structures.finds hf.baseStructure
  state := by
    rw [hk.state_eq]
    exact hf.state

theorem kind_of_record {k : TypeKind} (h : ruleOf k = .record) : k = .struct := by
  cases k <;> first | rfl | exact nomatch h

/-- Only pointers, references, arrays and aliases lead on to another type. -/
theorem recordName?_of_target (ht : targetOf? o src u = some target) :
    recordName? o src u = none := by
  unfold targetOf? below? at ht
  unfold recordName?
  cases hr : ruleOf u.kind with
  | record => simp [hr] at ht
  | plain | element | typeAlias | enumeration => simp

/-! ## The steps on one entry -/

theorem openEntry_types (o : SurveyOptions) (src : σ) (t : DeclaredType) (a : Atlas) :
    (openEntry o src t a).types =
      (a.types.enter (keyOf o src t) { qualifiedName := keyOf o src t }).2.2.modify
        (entryOf o src t a)
        (openLayer t.kind (formOf o src t) (isConst src (formOf o src t))) := rfl

theorem grows_openEntry (o : SurveyOptions) (src : σ) (t : DeclaredType) (a : Atlas) :
    a.Grows (openEntry o src t a) :=
  (Atlas.Grows.enterType ..).trans (.modifyType ..)

theorem keys_openEntry (hk : keyOf o src t ∉ a.types.keys) :
    (openEntry o src t a).types.keys = a.types.keys ++ [keyOf o src t] := by
  rw [openEntry_types, Registry.keys_modify, Registry.keys_enter, if_neg hk]

theorem mem_keys_openEntry (o : SurveyOptions) (src : σ) (t : DeclaredType) (a : Atlas) :
    keyOf o src t ∈ (openEntry o src t a).types.keys := by
  rw [openEntry_types, Registry.keys_modify]
  exact Registry.mem_keys_enter ..

theorem nodup_openEntry (hn : a.types.keys.Nodup) :
    (openEntry o src t a).types.keys.Nodup := by
  rw [openEntry_types, Registry.keys_modify]
  exact Registry.nodup_keys_enter hn ..

theorem entryOf_eq_find (o : SurveyOptions) (src : σ) (t : DeclaredType) (a : Atlas) :
    entryOf o src t a = (openEntry o src t a).findType (keyOf o src t) := by
  unfold Atlas.findType entryOf
  rw [openEntry_types, Registry.find_modify]
  exact Atlas.enterType_fst ..

theorem holds_openEntry_self (hk : keyOf o src t ∉ a.types.keys) :
    (openEntry o src t a).types.Holds (entryOf o src t a) (keyOf o src t)
      (openLayer t.kind (formOf o src t) (isConst src (formOf o src t))
        { qualifiedName := keyOf o src t }) := by
  rw [openEntry_types]
  exact (Registry.holds_enter_self hk _).modify_self

theorem ne_entryOf (hk : keyOf o src t ∉ a.types.keys) (hv : a.types.Holds x k e) :
    x ≠ entryOf o src t a :=
  hv.ne_enter hk _

theorem holds_openEntry_old (hk : keyOf o src t ∉ a.types.keys) (hv : a.types.Holds x k e) :
    (openEntry o src t a).types.Holds x k e := by
  rw [openEntry_types]
  exact (hv.enter _ _).modify_of_ne (ne_entryOf hk hv)

/-- Opening an entry adds one with nothing in it but the layer of the use. -/
theorem allTypes_openEntry {Q : String → TypeEntry → Prop} (ha : a.AllTypes Q)
    (hk : keyOf o src t ∉ a.types.keys)
    (hnew : Q (keyOf o src t) (openLayer t.kind (formOf o src t) (isConst src (formOf o src t))
      { qualifiedName := keyOf o src t })) : (openEntry o src t a).AllTypes Q := by
  intro x k e hv
  rw [openEntry_types] at hv
  obtain ⟨w, hw, rfl⟩ := Registry.holds_modify.1 hv
  rcases Registry.holds_enter.1 hw with hold | ⟨-, hx, rfl, rfl⟩
  · rw [if_neg (ne_entryOf hk hold)]
    exact ha hold
  · rw [if_pos (show x = entryOf o src t a from hx)]
    exact hnew

theorem grows_atEveryUse (rule : TypeRule) (h : TypeHandle) (a : Atlas) :
    a.Grows (atEveryUse rule h a) := by
  cases rule with
  | enumeration => exact .modifyType ..
  | plain | element | record | typeAlias => exact .refl _

theorem keys_atEveryUse (rule : TypeRule) (h : TypeHandle) (a : Atlas) :
    (atEveryUse rule h a).types.keys = a.types.keys := by
  cases rule with
  | enumeration => exact Registry.keys_modify ..
  | plain | element | record | typeAlias => rfl

/-- What is done at every use marks an entry at most. -/
theorem holds_atEveryUse (rule : TypeRule) (h : TypeHandle) (hv : a.types.Holds x k e) :
    ∃ e', (atEveryUse rule h a).types.Holds x k e' ∧ e.Kept e' := by
  cases rule with
  | enumeration =>
      by_cases hx : x = h
      · subst hx
        exact ⟨_, hv.modify_self, Or.inr rfl⟩
      · exact ⟨_, hv.modify_of_ne hx, .refl _⟩
  | plain | element | record | typeAlias => exact ⟨_, hv, .refl _⟩

theorem holds_atEveryUse_of_ne (rule : TypeRule) (hv : a.types.Holds x k e) (hne : x ≠ h) :
    (atEveryUse rule h a).types.Holds x k e := by
  cases rule with
  | enumeration => exact hv.modify_of_ne hne
  | plain | element | record | typeAlias => exact hv

theorem grows_closeEntry (t : DeclaredType) (h : TypeHandle) (a : Atlas) :
    a.Grows (closeEntry t h a) :=
  (Atlas.Grows.modifyType ..).trans (grows_atEveryUse ..)

theorem keys_closeEntry (t : DeclaredType) (h : TypeHandle) (a : Atlas) :
    (closeEntry t h a).types.keys = a.types.keys :=
  (keys_atEveryUse ..).trans (Registry.keys_modify ..)

theorem holds_closeEntry_self (t : DeclaredType) (hv : a.types.Holds h k e) :
    ∃ e', (closeEntry t h a).types.Holds h k e' ∧ (complete e).Kept e' :=
  holds_atEveryUse _ h (a := a.modifyType h complete) hv.modify_self

theorem holds_closeEntry_of_ne (t : DeclaredType) (hv : a.types.Holds x k e)
    (hne : x ≠ h) : (closeEntry t h a).types.Holds x k e :=
  holds_atEveryUse_of_ne _ (a := a.modifyType h complete) (hv.modify_of_ne hne) hne

theorem grows_linkBase (h base : TypeHandle) (a : Atlas) : a.Grows (linkBase h base a) := by
  unfold linkBase
  split
  · exact .refl _
  · exact .modifyType ..

theorem keys_linkBase (h base : TypeHandle) (a : Atlas) :
    (linkBase h base a).types.keys = a.types.keys := by
  unfold linkBase
  split
  · rfl
  · exact Registry.keys_modify ..

theorem holds_linkBase_self (base : TypeHandle) (hv : a.types.Holds h k e) :
    (linkBase h base a).types.Holds h k (if base = h then e else { e with base := base }) := by
  unfold linkBase
  split
  · exact hv
  · exact hv.modify_self

theorem holds_linkBase_of_ne (base : TypeHandle) (hv : a.types.Holds x k e) (hne : x ≠ h) :
    (linkBase h base a).types.Holds x k e := by
  unfold linkBase
  split
  · exact hv
  · exact hv.modify_of_ne hne

theorem grows_linkStructure (h : TypeHandle) (d : Declaration) (a : Atlas) :
    a.Grows (linkStructure h d a) := by
  unfold linkStructure
  split
  · exact (Atlas.Grows.enterStructure ..).trans
      ((Atlas.Grows.modifyStructure ..).trans (.modifyType ..))
  · exact .refl _

theorem grows_linkRecord (o : SurveyOptions) (src : σ) (t : DeclaredType) (h : TypeHandle)
    (a : Atlas) : a.Grows (linkRecord o src t h a) := by
  unfold linkRecord
  split
  · exact grows_linkStructure ..
  · exact .refl _

theorem keys_linkRecord (o : SurveyOptions) (src : σ) (t : DeclaredType) (h : TypeHandle)
    (a : Atlas) : (linkRecord o src t h a).types.keys = a.types.keys := by
  unfold linkRecord linkStructure
  split
  · split
    · exact Registry.keys_modify ..
    · rfl
  · rfl

theorem holds_linkRecord_of_ne (o : SurveyOptions) (src : σ) (t : DeclaredType)
    (hv : a.types.Holds x k e) (hne : x ≠ h) :
    (linkRecord o src t h a).types.Holds x k e := by
  unfold linkRecord linkStructure
  split
  · split
    · exact hv.modify_of_ne hne
    · exact hv
  · exact hv

/-- Linking a record writes the structure that its declaration names. -/
theorem holds_linkRecord_self (hl : OwnLayer o src t e) (hs : e.baseStructure = .null)
    (hv : a.types.Holds h k e) :
    ∃ e', (linkRecord o src t h a).types.Holds h k e' ∧ OwnLayer o src t e' ∧
      e'.base = e.base ∧
      (linkRecord o src t h a).structures.Finds (recordName? o src t) e'.baseStructure := by
  unfold linkRecord linkStructure recordName?
  by_cases hr : ruleOf t.kind = .record
  · by_cases hd : (typeDeclaration src (formOf o src t)).kind.isStructure = true
    · rw [if_pos hr, if_pos hd, if_pos ⟨hr, hd⟩]
      refine ⟨_, hv.modify_self, ⟨hl.qualifiedName, hl.identifier, hl.dimensions,
        hl.isConst, Or.inl (kind_of_record hr).symm, hl.templateArguments⟩, rfl, ?_, ?_⟩
      · change _ ∈ (Registry.modify _ _ _).keys
        rw [Registry.keys_modify]
        exact Registry.mem_keys_enter ..
      · change _ = (Registry.modify _ _ _).find _
        rw [Registry.find_modify]
        exact Atlas.enterStructure_fst ..
    · rw [if_pos hr, if_neg hd, if_neg (fun hc => hd hc.2)]
      exact ⟨e, hv, hl, rfl, hs⟩
  · rw [if_neg hr, if_neg (fun hc => hr hc.1)]
    exact ⟨e, hv, hl, rfl, hs⟩

/-! ## Derivations -/

namespace Enters

theorem grows (he : Enters o src t a calls h a') : a.Grows a' := by
  induction he with
  | known hk => exact grows_atEveryUse ..
  | flat hk ht =>
      exact (grows_openEntry ..).trans ((grows_linkRecord ..).trans (grows_closeEntry ..))
  | layered hk ht _ ih =>
      exact (grows_openEntry ..).trans
        (ih.trans ((grows_linkBase ..).trans (grows_closeEntry ..)))

/-- A use is answered with the handle that is found under its name. -/
theorem found (he : Enters o src t a calls h a') :
    keyOf o src t ∈ a'.types.keys ∧ h = a'.findType (keyOf o src t) := by
  have opened : ∀ {a a' : Atlas}, (openEntry o src t a).Grows a' →
      keyOf o src t ∈ a'.types.keys ∧ entryOf o src t a = a'.findType (keyOf o src t) := by
    intro a a' hg
    have hmem := mem_keys_openEntry o src t a
    exact ⟨hg.types.mem hmem, (entryOf_eq_find ..).trans (hg.findType hmem).symm⟩
  cases he with
  | known hk =>
      have hg := grows_atEveryUse (ruleOf t.kind) (a.findType (keyOf o src t)) a
      exact ⟨hg.types.mem hk, (hg.findType hk).symm⟩
  | flat hk ht => exact opened ((grows_linkRecord ..).trans (grows_closeEntry ..))
  | layered hk ht hb =>
      exact opened (hb.grows.trans ((grows_linkBase ..).trans (grows_closeEntry ..)))

/-- The names added are those of the uses that made entries, in the order of the calls. -/
theorem keys (he : Enters o src t a calls h a') :
    a'.types.keys = a.types.keys ++ (newUses calls).map (keyOf o src) := by
  induction he with
  | known hk => rw [keys_atEveryUse, newUses_old, List.map_nil, List.append_nil]
  | flat hk ht =>
      rw [keys_closeEntry, keys_linkRecord, keys_openEntry hk]
      rfl
  | layered hk ht _ ih =>
      rw [keys_closeEntry, keys_linkBase, ih, keys_openEntry hk, newUses_cons_new,
        List.map_cons, List.append_assoc]
      rfl

/-- A use makes an entry only where its name is not known. -/
theorem fresh (he : Enters o src t a calls h a') :
    ∀ u ∈ newUses calls, keyOf o src u ∉ a.types.keys := by
  induction he with
  | known hk => simp
  | flat hk ht => simpa [newUses] using hk
  | layered hk ht _ ih =>
      intro u hu
      rcases List.mem_cons.1 hu with rfl | hu
      · exact hk
      · exact fun hmem => ih u hu ((grows_openEntry ..).types.mem hmem)

theorem nodup (he : Enters o src t a calls h a') (hn : a.types.keys.Nodup) :
    a'.types.keys.Nodup := by
  induction he with
  | known hk => rwa [keys_atEveryUse]
  | flat hk ht =>
      rw [keys_closeEntry, keys_linkRecord]
      exact nodup_openEntry hn
  | layered hk ht _ ih =>
      rw [keys_closeEntry, keys_linkBase]
      exact ih (nodup_openEntry hn)

/-- What was there stays, but for the mark that it is not modelled. -/
theorem kept (he : Enters o src t a calls h a') (hv : a.types.Holds x k e) :
    ∃ e', a'.types.Holds x k e' ∧ e.Kept e' := by
  induction he with
  | known hk => exact holds_atEveryUse _ _ hv
  | flat hk ht =>
      have hne := ne_entryOf hk hv
      exact ⟨e, holds_closeEntry_of_ne _ (holds_linkRecord_of_ne _ _ _
        (holds_openEntry_old hk hv) hne) hne, .refl e⟩
  | layered hk ht _ ih =>
      have hne := ne_entryOf hk hv
      obtain ⟨e', hv', hkept⟩ := ih (holds_openEntry_old hk hv)
      exact ⟨e', holds_closeEntry_of_ne _ (holds_linkBase_of_ne _ hv' hne) hne, hkept⟩

private theorem filled_flat (hk : keyOf o src t ∉ a.types.keys)
    (ht : targetOf? o src t = none) :
    ∃ e, (closeEntry t (entryOf o src t a) (linkRecord o src t (entryOf o src t a)
        (openEntry o src t a))).types.Holds (entryOf o src t a) (keyOf o src t) e ∧
      Filled o src t (closeEntry t (entryOf o src t a)
        (linkRecord o src t (entryOf o src t a) (openEntry o src t a))) e := by
  obtain ⟨e₁, hv₁, hl₁, hbase, hrecord⟩ :=
    holds_linkRecord_self (ownLayer_openLayer o src t) rfl (holds_openEntry_self hk)
  obtain ⟨e₂, hv₂, hkept⟩ := holds_closeEntry_self t hv₁
  refine ⟨e₂, hv₂, ⟨hl₁.complete.kept hkept, ?_, ?_, hkept.state_eq⟩⟩
  · have hnone : baseKey? o src t = none := by rw [baseKey?, ht]; rfl
    rw [hkept.base_eq, hnone]
    exact hbase
  · rw [hkept.baseStructure_eq]
    exact (grows_closeEntry ..).structures.finds hrecord

/-- The entry that was open while what lies below it was entered. -/
private theorem filled_layered (hk : keyOf o src t ∉ a.types.keys)
    (ht : targetOf? o src t = some target)
    (hb : Enters o src target (openEntry o src t a) calls base a') :
    ∃ e, (closeEntry t (entryOf o src t a) (linkBase (entryOf o src t a) base a')).types.Holds
        (entryOf o src t a) (keyOf o src t) e ∧
      Filled o src t (closeEntry t (entryOf o src t a)
        (linkBase (entryOf o src t a) base a')) e := by
  obtain ⟨e₁, hv₁, hkept₁⟩ := hb.kept (holds_openEntry_self hk)
  have hl₁ := (ownLayer_openLayer o src t).kept hkept₁
  obtain ⟨e₂, hv₂, hkept₂⟩ := holds_closeEntry_self t (holds_linkBase_self base hv₁)
  have hg : a'.Grows (closeEntry t (entryOf o src t a)
      (linkBase (entryOf o src t a) base a')) :=
    (grows_linkBase ..).trans (grows_closeEntry ..)
  have hmem : keyOf o src t ∈ a'.types.keys := hb.grows.types.mem (mem_keys_openEntry ..)
  have hentry : entryOf o src t a = a'.findType (keyOf o src t) :=
    (entryOf_eq_find ..).trans (hb.grows.findType (mem_keys_openEntry ..)).symm
  obtain ⟨hfmem, hfound⟩ := hb.found
  -- The base is the entry itself exactly when both uses have the same name.
  have hsame : base = entryOf o src t a ↔ keyOf o src target = keyOf o src t := by
    rw [hfound, hentry]
    exact ⟨fun he => Registry.find_inj hfmem he, fun he => by rw [he]⟩
  have hbaseKey : baseKey? o src t =
      if base = entryOf o src t a then none else some (keyOf o src target) := by
    rw [baseKey?, ht, Option.map_some]
    by_cases hs : base = entryOf o src t a
    · rw [if_pos hs]
      simp [Option.filter, hsame.1 hs]
    · have hne : keyOf o src target ≠ keyOf o src t := fun he => hs (hsame.2 he)
      rw [if_neg hs]
      simp [Option.filter, hne]
  refine ⟨e₂, hv₂, ⟨?_, ?_, ?_, hkept₂.state_eq⟩⟩
  · refine OwnLayer.kept (OwnLayer.complete ?_) hkept₂
    split
    · exact hl₁
    · exact hl₁.withBase base
  · rw [hkept₂.base_eq, hbaseKey]
    by_cases hs : base = entryOf o src t a
    · rw [if_pos hs, if_pos hs]
      exact hkept₁.base_eq
    · rw [if_neg hs, if_neg hs]
      exact ⟨hg.types.mem hfmem, hfound.trans (hg.findType hfmem).symm⟩
  · rw [hkept₂.baseStructure_eq, recordName?_of_target ht]
    split
    · exact hkept₁.baseStructure_eq
    · exact hkept₁.baseStructure_eq

/-- Every use that made an entry has filled it in. -/
theorem filled (he : Enters o src t a calls h a') :
    ∀ u ∈ newUses calls, ∃ e, a'.types.Holds (a'.findType (keyOf o src u)) (keyOf o src u) e ∧
      Filled o src u a' e := by
  induction he with
  | known hk => simp
  | @flat t a hk ht =>
      intro u hu
      obtain rfl : u = t := by simpa [newUses] using hu
      rw [← (Enters.flat hk ht).found.2]
      exact filled_flat hk ht
  | @layered t target a a' calls base hk ht hb ih =>
      intro u hu
      rcases List.mem_cons.1 hu with rfl | hu
      · rw [← (Enters.layered hk ht hb).found.2]
        exact filled_layered hk ht hb
      · obtain ⟨e, hv, hf⟩ := ih u hu
        have hg : a'.Grows (closeEntry t (entryOf o src t a)
            (linkBase (entryOf o src t a) base a')) :=
          (grows_linkBase ..).trans (grows_closeEntry ..)
        have hmem : keyOf o src u ∈ a'.types.keys := hv.mem_keys
        -- The entry is another than the open one, whose name is not new any more.
        have hne : a'.findType (keyOf o src u) ≠ entryOf o src t a := by
          rw [entryOf_eq_find, ← hb.grows.findType (mem_keys_openEntry ..)]
          intro hc
          apply hb.fresh u hu
          rw [Registry.find_inj hmem hc]
          exact mem_keys_openEntry ..
        rw [hg.findType hmem]
        exact ⟨e, holds_closeEntry_of_ne _ (holds_linkBase_of_ne _ hv hne) hne,
          hf.mono hg (.refl e)⟩

/-! ### Structures meanwhile -/

/-- Entering types does nothing to structures but name them after declarations. -/
theorem structures_induction {P : Atlas → Prop}
    (hsame : ∀ b c : Atlas, c.structures = b.structures → P b → P c)
    (hrefine : ∀ (b : Atlas) (d : Declaration), P b →
      P (b.refine d.qualifiedName (·.applyDeclaration d)))
    (he : Enters o src t a calls h a') (ha : P a) : P a' := by
  have everyUse : ∀ {rule : TypeRule} {h : TypeHandle} {b : Atlas},
      (atEveryUse rule h b).structures = b.structures := by
    intro rule h b
    cases rule <;> rfl
  have close : ∀ {t : DeclaredType} {h : TypeHandle} {b : Atlas},
      (closeEntry t h b).structures = b.structures := everyUse
  induction he with
  | known hk => exact hsame _ _ everyUse ha
  | @flat t a hk ht =>
      have hopen : P (openEntry o src t a) := hsame a _ rfl ha
      apply hsame _ _ close
      unfold linkRecord linkStructure
      split
      · split
        · refine hsame _ _ ?_ (hrefine _ (typeDeclaration src (formOf o src t)) hopen)
          rfl
        · exact hopen
      · exact hopen
  | @layered t target a a' calls base hk ht _ ih =>
      have hopen : P (openEntry o src t a) := hsame a _ rfl ha
      refine hsame a' _ (close.trans ?_) (ih hopen)
      unfold linkBase
      split <;> rfl

/-- A property of structures that naming them after declarations keeps stays true. -/
theorem allStructures {Q : String → Structure → Prop} (he : Enters o src t a calls h a')
    (hfresh : ∀ n, Q n { qualifiedName := n })
    (hdecl : ∀ d s, Q d.qualifiedName s → Q d.qualifiedName (s.applyDeclaration d))
    (hq : a.AllStructures Q) : a'.AllStructures Q := by
  refine he.structures_induction (P := Atlas.AllStructures Q) ?_ ?_ hq
  · intro b c hs hb
    unfold Atlas.AllStructures
    rwa [hs]
  · intro b d hb
    exact hb.refine (hfresh _) (hdecl d)

theorem nodup_structures (he : Enters o src t a calls h a')
    (hn : a.structures.keys.Nodup) : a'.structures.keys.Nodup := by
  refine he.structures_induction (P := fun b => b.structures.keys.Nodup) ?_ ?_ hn
  · intro b c hs hb
    rwa [hs]
  · intro b d hb
    exact Atlas.nodup_refine hb _

/-- Entering types adds no members to any structure. -/
theorem membersOf {β : Type v} {g : Structure → List β} (n : String)
    (he : Enters o src t a calls h a') (hg : ∀ n, g { qualifiedName := n } = [])
    (hdecl : ∀ s d, g (s.applyDeclaration d) = g s) :
    a'.membersOf g n = a.membersOf g n := by
  refine he.structures_induction (P := fun b => b.membersOf g n = a.membersOf g n) ?_ ?_ rfl
  · intro b c hs hb
    unfold Atlas.membersOf Atlas.structure? Atlas.findStructure
    rw [hs]
    exact hb
  · intro b d hb
    exact (Atlas.membersOf_refine_of_same (hg _) (hdecl · d)).trans hb

end Enters

end Survey

end DeclAtlas
