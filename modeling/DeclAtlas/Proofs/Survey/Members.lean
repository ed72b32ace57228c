import DeclAtlas.Proofs.Survey.Integrity

/-!
# The members of structures

The members of a structure are read off the stream: each declaration contributes to the
structure that directly encloses it and to no other, in the order of the stream, whatever
else is entered, declared again or named in between. A step appends what its declaration
contributes and a run appends one contribution after another.

Handles are stored while the atlas still grows. They are described by what is found in the
atlas at the end, which is the same.

## Main results

* `Visits.membersOf`: what one step appends, for fields, parents and methods alike.
* `Runs.membersOf`: what a run appends.
* `build_membersExact`: the members of every structure of an atlas that is built.
-/

universe u v

namespace DeclAtlas.Survey

open DeclarationSource

/-! ## What a declaration contributes -/

/-- The field that an item is, its type found under the name that `key` gives it. -/
def fieldAs (key : DeclaredType → String) (a : Atlas) (i : Item) : Field :=
  ⟨i.declaration.location, i.declaration.qualifiedName, i.declaration.identifier,
    a.findType (key i.type), i.visibility⟩

/-- The method that an item is, apart from its parameters. -/
def methodAs (key : DeclaredType → String) (a : Atlas) (i : Item) : Method :=
  ⟨[], i.declaration.location, i.declaration.identifier, i.declaration.qualifiedName,
    a.findType (key i.type), i.visibility, i.flags⟩

/-- The structure that an item names as a base. -/
def parentAs (a : Atlas) (i : Item) : StructureHandle :=
  a.findStructure i.declaration.qualifiedName

/-- A method without its parameters. -/
def header (m : Method) : Method := { m with parameters := [] }

/-- What an item of the kind `kind` is to the structure named `q`, if that is the one that
directly encloses it. -/
def memberOf? {β : Type v} (kind : DeclarationKind) (make : Item → β) (q : String)
    (i : Item) : Option β :=
  if i.declaration.kind = kind ∧ owner? i.ancestors = some q then some (make i) else none

/-- What an item does to the structure that directly encloses it. -/
def contribute (o : SurveyOptions) (key : DeclaredType → String) (a : Atlas) (i : Item) :
    Structure → Structure :=
  match i.declaration.kind with
  | .field => addField (fieldAs key a i)
  | .baseSpecifier => addParent (parentAs a i)
  | .method => if o.modelMethods then addMethod (methodAs key a i) else id
  | _ => id

/-- A list of members: a new structure has none, and neither declaring a structure nor
adding a parameter changes them. -/
structure IsMemberList {β : Type v} (g : Structure → List β) : Prop where
  blank : ∀ n, g { qualifiedName := n } = []
  declared : ∀ s d path v, g { s.applyDeclaration d with path := path, visibility := v } = g s
  parameter : ∀ name p s, g (addParameter name p s) = g s

theorem isMemberList_fields : IsMemberList (fun s => s.fields) := by
  constructor <;> intros <;> rfl

theorem isMemberList_parents : IsMemberList (fun s => s.parents) := by
  constructor <;> intros <;> rfl

private theorem map_modifyLastWhere {α : Type u} {β : Type v} {p : α → Bool} {f : α → α}
    {g : α → β} (hg : ∀ x, g (f x) = g x) (xs : List α) :
    (modifyLastWhere p f xs).map g = xs.map g := by
  have first : ∀ ys : List α, (modifyLastWhere.first p f ys).map g = ys.map g := by
    intro ys
    induction ys with
    | nil => rfl
    | cons y ys ih =>
        rw [modifyLastWhere.first]
        split
        · rw [List.map_cons, List.map_cons, hg]
        · rw [List.map_cons, List.map_cons, ih]
  unfold modifyLastWhere
  rw [List.map_reverse, first, List.map_reverse, List.reverse_reverse]

theorem isMemberList_methods : IsMemberList (fun s => s.methods.map header) where
  blank _ := rfl
  declared _ _ _ _ := rfl
  parameter name p s := by
    apply map_modifyLastWhere
    intro m
    rfl

variable {σ : Type u} [DeclarationSource σ] {o : SurveyOptions} {src src' : σ}
  {d : Declaration} {t : DeclaredType} {a a' b c : Atlas} {calls : List Call}
  {uses : List Use} {h : TypeHandle} {q : String} {key : DeclaredType → String}
  {β : Type v} {g : Structure → List β} {f : Structure → Structure} {xs : List β}

/-! ## Steps -/

/-- A change of the enclosing structure reaches its members and no others. -/
theorem membersOf_modifyEnclosing_eq (src : σ) (hblank : ∀ n, g { qualifiedName := n } = [])
    {F : List β → List β} (hf : ∀ s, g (f s) = F (g s)) :
    (modifyEnclosing src f a).membersOf g q =
      if owner? (ancestors src) = some q then F (a.membersOf g q) else a.membersOf g q := by
  rw [modifyEnclosing_eq]
  cases hn : owner? (ancestors src) with
  | none => simp
  | some n =>
      change (a.refine n f).membersOf g q = _
      rw [Atlas.membersOf_refine_eq (hblank n) hf]
      by_cases hq : q = n
      · rw [if_pos hq, if_pos (by rw [hq])]
      · have hne : some n ≠ some q := fun he => hq (Option.some.inj he).symm
        rw [if_neg hq, if_neg hne]

theorem membersOf_modifyEnclosing (src : σ) (hblank : ∀ n, g { qualifiedName := n } = [])
    (hf : ∀ s, g (f s) = g s ++ xs) :
    (modifyEnclosing src f a).membersOf g q =
      a.membersOf g q ++ if owner? (ancestors src) = some q then xs else [] := by
  rw [membersOf_modifyEnclosing_eq src hblank (F := (· ++ xs)) hf]
  split
  · rfl
  · exact (List.append_nil _).symm

theorem Enters.membersOf_eq (he : Enters o src t a calls h b) (hg : IsMemberList g) :
    b.membersOf g q = a.membersOf g q :=
  he.membersOf q hg.blank fun s d => hg.declared s d s.path s.visibility

/-- A handle that is answered now is what is found under the name later. -/
theorem Enters.findType_eq (he : Enters o src t a calls h b) (hg : b.Grows c) :
    h = c.findType (keyOf o src t) := by
  obtain ⟨hmem, hh⟩ := he.found
  rw [hh, hg.findType hmem]

/-- A step appends what its declaration contributes to the structure around it. -/
theorem Visits.membersOf (hv : Visits o src d a uses b) (hg : IsMemberList g)
    (hkey : keyOf o src = key) (hgrows : b.Grows c)
    (hxs : ∀ s, g (contribute o key c (itemOf src d) s) = g s ++ xs) :
    b.membersOf g q =
      a.membersOf g q ++ if owner? (ancestors src) = some q then xs else [] := by
  -- What contributes nothing leaves all members as they are.
  have nothing : contribute o key c (itemOf src d) = id → xs = [] := by
    intro hid
    have hnil := hxs default
    rw [hid] at hnil
    exact List.self_eq_append_right.1 hnil
  have hkind : (itemOf src d).declaration.kind = d.kind := rfl
  cases hv with
  | idle hi =>
      unfold IsIdle at hi
      cases hk : d.kind <;> rw [hk] at hi
      case structDecl | classDecl | baseSpecifier | field => exact hi.elim
      case unsupported | function | namespaceDecl | parameter =>
        rw [nothing (by unfold contribute; rw [hkind, hk])]
        simp
      case method =>
        rcases Bool.and_eq_false_iff.1 hi with hm | hm
        · rw [nothing (by unfold contribute; rw [hkind, hk, hm]; rfl)]
          simp
        · have hnone : owner? (ancestors src) = none := by simpa using hm
          simp [hnone]
  | record hk =>
      have hnil : xs = [] := by
        apply nothing
        unfold contribute
        rcases eq_of_isStructure hk with hd | hd
        · rw [hkind, hd]
        · rw [hkind, hd]
      rw [visitStructure_eq, Atlas.membersOf_refine_of_same (hg.blank _)
        fun s => hg.declared s d _ _]
      simp [hnil]
  | base hk =>
      have hmem : d.qualifiedName ∈ (a.enterStructure d.qualifiedName).2.2.structures.keys :=
        Registry.mem_keys_enter ..
      rw [visitBase_eq] at hgrows ⊢
      have hparent := ((grows_modifyEnclosing ..).trans hgrows).findStructure hmem
      have hadd : contribute o key c (itemOf src d) = addParent
          ((a.enterStructure d.qualifiedName).2.2.findStructure d.qualifiedName) := by
        unfold contribute
        rw [hkind, hk, ← hparent]
        rfl
      rw [membersOf_modifyEnclosing src hg.blank (hadd ▸ hxs),
        Atlas.membersOf_enterStructure (hg.blank _)]
  | @field b calls h hk he =>
      have hh := he.findType_eq ((grows_modifyEnclosing ..).trans hgrows)
      have hadd : contribute o key c (itemOf src d) = addField (fieldFor src d h) := by
        unfold contribute
        rw [hkind, hk, hh, hkey]
        rfl
      rw [membersOf_modifyEnclosing src hg.blank (hadd ▸ hxs), he.membersOf_eq hg]
  | @method b calls h hk hm he =>
      have hh := he.findType_eq ((grows_modifyEnclosing ..).trans hgrows)
      have hon : o.modelMethods = true := (Bool.and_eq_true_iff.1 hm).1
      have hadd : contribute o key c (itemOf src d) = addMethod (methodFor src d h) := by
        unfold contribute
        rw [hkind, hk, hh, hkey, hon]
        rfl
      rw [membersOf_modifyEnclosing src hg.blank (hadd ▸ hxs), he.membersOf_eq hg]
  | parameter hk ho he =>
      have hnil : xs = [] := nothing (by unfold contribute; rw [hkind, hk])
      rw [Atlas.membersOf_modifyStructure_of_same _ (hg.parameter _ _), he.membersOf_eq hg]
      simp [hnil]

/-! ## Runs -/

/-- A run appends what its declarations contribute, one after another. -/
theorem Runs.membersOf [SteadyTypes σ] {items : List Item} {xs : Item → List β}
    (hr : Runs o src a uses a' src') (hd : Delivers src items) (hg : IsMemberList g)
    (hkey : keyOf o src = key) (hgrows : a'.Grows c)
    (hxs : ∀ i s, g (contribute o key c i s) = g s ++ xs i) :
    a'.membersOf g q = a.membersOf g q ++
      items.flatMap fun i => if owner? i.ancestors = some q then xs i else [] := by
  have hfold : a'.membersOf g q = items.foldl
      (fun ys i => ys ++ if owner? i.ancestors = some q then xs i else []) (a.membersOf g q) := by
    apply hr.foldl hd hkey hgrows
    intro src d a us a' hv hkey hgrows
    exact hv.membersOf hg hkey hgrows (hxs _)
  rw [hfold, List.foldl_append_eq_append, List.flatMap_def]

/-- Contributions of one kind, read off the stream. -/
theorem flatMap_memberOf? (kind : DeclarationKind) (make : Item → β) (q : String)
    (items : List Item) :
    (items.flatMap fun i => if owner? i.ancestors = some q then
        if i.declaration.kind = kind then [make i] else [] else []) =
      items.filterMap (memberOf? kind make q) := by
  rw [List.filterMap_eq_flatMap_toList]
  congr 1
  funext i
  unfold memberOf?
  by_cases hk : i.declaration.kind = kind
  · by_cases hq : owner? i.ancestors = some q
    · simp [hk, hq]
    · simp [hk, hq]
  · simp [hk]

/-- What an item contributes to the list `g` has a structure to go to. -/
theorem Runs.owner_mem [SteadyTypes σ] {items : List Item} {i : Item} {xs : Item → List β}
    (hr : Runs o src a uses a' src') (hd : Delivers src items) (hg : IsMemberList g)
    (hxs : ∀ i s, g (contribute o (keyOf o src) a' i s) = g s ++ xs i) (hi : i ∈ items)
    (hq : owner? i.ancestors = some q) (hne : xs i ≠ []) : q ∈ a'.structures.keys := by
  by_contra hmem
  have hall := hr.membersOf (q := q) hd hg rfl (.refl a') hxs
  rw [Atlas.membersOf_of_not_mem hmem] at hall
  have hnil := (List.append_eq_nil_iff.1 hall.symm).2
  have hnone := List.flatMap_eq_nil_iff.1 hnil i hi
  rw [if_pos hq] at hnone
  exact hne hnone

/-! ## Fields, parents and methods -/

theorem contribute_fields (o : SurveyOptions) (key : DeclaredType → String) (a : Atlas)
    (i : Item) (s : Structure) :
    (contribute o key a i s).fields =
      s.fields ++ if i.declaration.kind = .field then [fieldAs key a i] else [] := by
  unfold contribute
  cases i.declaration.kind
  case field => rfl
  case method => cases o.modelMethods <;> simp [addMethod]
  all_goals simp [addParent]

theorem contribute_parents (o : SurveyOptions) (key : DeclaredType → String) (a : Atlas)
    (i : Item) (s : Structure) :
    (contribute o key a i s).parents =
      s.parents ++ if i.declaration.kind = .baseSpecifier then [parentAs a i] else [] := by
  unfold contribute
  cases i.declaration.kind
  case baseSpecifier => rfl
  case method => cases o.modelMethods <;> simp [addMethod]
  all_goals simp [addField]

theorem contribute_methods (o : SurveyOptions) (key : DeclaredType → String) (a : Atlas)
    (i : Item) (s : Structure) :
    (contribute o key a i s).methods.map header = s.methods.map header ++
      if o.modelMethods = true then
        if i.declaration.kind = .method then [methodAs key a i] else []
      else [] := by
  unfold contribute
  cases i.declaration.kind
  case method => cases o.modelMethods <;> simp [addMethod, header, methodAs]
  all_goals simp [addField, addParent]

/-- The members of every structure are what the items contribute to it, in their order. -/
structure MembersExact (o : SurveyOptions) (key : DeclaredType → String)
    (items : List Item) (a : Atlas) : Prop where
  fields : ∀ h s, a.structure? h = some s →
    s.fields = items.filterMap (memberOf? .field (fieldAs key a) s.qualifiedName)
  parents : ∀ h s, a.structure? h = some s →
    s.parents = items.filterMap (memberOf? .baseSpecifier (parentAs a) s.qualifiedName)
  methods : o.modelMethods = true → ∀ h s, a.structure? h = some s →
    s.methods.map header =
      items.filterMap (memberOf? .method (methodAs key a) s.qualifiedName)
  methodsOff : o.modelMethods = false → ∀ h s, a.structure? h = some s → s.methods = []
  /-- What contributes to a structure has found it. -/
  owned : ∀ i ∈ items, ∀ q, owner? i.ancestors = some q →
    i.declaration.kind = .field ∨ i.declaration.kind = .baseSpecifier ∨
      (i.declaration.kind = .method ∧ o.modelMethods = true) →
    ∃ s, a.structure? (a.findStructure q) = some s ∧ s.qualifiedName = q

theorem Runs.membersExact [SteadyTypes σ] {items : List Item} {id : ArenaId}
    (hr : Runs o src (Atlas.empty id) uses a src') (hd : Delivers src items) :
    MembersExact o (keyOf o src) items a := by
  have members : ∀ {β : Type} {g : Structure → List β} {xs : Item → List β},
      IsMemberList g → (∀ i s, g (contribute o (keyOf o src) a i s) = g s ++ xs i) →
      ∀ h s, a.structure? h = some s → g s =
        items.flatMap fun i => if owner? i.ancestors = some s.qualifiedName then xs i else [] := by
    intro β g xs hg hxs h s hs
    have hall := hr.membersOf (q := s.qualifiedName) hd hg rfl (.refl a) hxs
    have hempty : (Atlas.empty id).membersOf g s.qualifiedName = [] :=
      Atlas.membersOf_of_not_mem (List.not_mem_nil)
    rw [hempty, List.nil_append] at hall
    rw [← hall]
    unfold Atlas.membersOf
    rw [hr.integrity.findStructure h s hs, hs]
    rfl
  constructor
  case fields =>
    intro h s hs
    rw [← flatMap_memberOf?]
    exact members isMemberList_fields (contribute_fields o _ a) h s hs
  case parents =>
    intro h s hs
    rw [← flatMap_memberOf?]
    exact members isMemberList_parents (contribute_parents o _ a) h s hs
  case methods =>
    intro hon h s hs
    rw [← flatMap_memberOf?, members isMemberList_methods (contribute_methods o _ a) h s hs]
    simp only [hon, if_true]
  case methodsOff =>
    intro hoff h s hs
    have hnil := members isMemberList_methods (contribute_methods o _ a) h s hs
    have hnone : ∀ i ∈ items, (if owner? i.ancestors = some s.qualifiedName then
        if o.modelMethods = true then
          if i.declaration.kind = .method then [methodAs (keyOf o src) a i] else []
        else [] else []) = [] := by
      intro i _
      simp [hoff]
    rw [List.flatMap_eq_nil_iff.2 hnone] at hnil
    exact List.map_eq_nil_iff.1 hnil
  case owned =>
    intro i hi q hq hkind
    have hmem : q ∈ a.structures.keys := by
      rcases hkind with hk | hk | ⟨hk, hon⟩
      · exact hr.owner_mem hd isMemberList_fields (contribute_fields o _ a) hi hq (by simp [hk])
      · exact hr.owner_mem hd isMemberList_parents (contribute_parents o _ a) hi hq
          (by simp [hk])
      · exact hr.owner_mem hd isMemberList_methods (contribute_methods o _ a) hi hq
          (by simp [hk, hon])
    obtain ⟨s, hs⟩ := Option.isSome_iff_exists.1 (Atlas.hasStructure_findStructure hmem)
    exact ⟨s, hs, hr.integrity.structureOfName q s hs⟩

/-- No member is lost, repeated or misplaced: in an atlas built from a recorded script with
lines enough for its declarations, or from a dump without empty declarations, the members of
every structure are those that the stream has for it. -/
theorem build_membersExact (o : SurveyOptions) (fuel : Nat) (id : ArenaId) (a : Atlas) :
    (∀ s s' : Script, s.Recorded → s.entries.length < Script.maxLine →
      build (.standard o) fuel s id = some (a, s') →
      MembersExact o (keyOf o s) s.upcoming a) ∧
    (∀ s s' : Dump.Source, (∀ i ∈ s.upcoming, i.declaration.isEmpty = false) →
      build (.standard o) fuel s id = some (a, s') →
      MembersExact o (keyOf o s) s.upcoming a) := by
  constructor
  · intro s s' hs hl hb
    obtain ⟨uses, hr⟩ := runs_of_build hb
    exact hr.membersExact (hs.delivers (Nat.le_of_lt hl))
  · intro s s' hne hb
    obtain ⟨uses, hr⟩ := runs_of_build hb
    exact hr.membersExact (Dump.Source.delivers hne)

theorem membersExact_linked :
    (∃ a s', build (.standard { modelMethods := true }) 9 Script.linked ⟨1⟩ = some (a, s') ∧
      a.structures.values.map (fun s =>
          (s.fields.map (·.identifier), s.parents, s.methods.map (·.identifier))) =
        [(["id"], [], []), (["next", "seen"], [a.findStructure "Base"], ["find"])] ∧
      MembersExact { modelMethods := true } (keyOf { modelMethods := true } Script.linked)
        Script.linked.upcoming a) ∧
    (∃ a s', build (.standard { modelMethods := true }) 9 Dump.Source.linked ⟨1⟩ = some (a, s') ∧
      a.structures.values.map (fun s =>
          (s.fields.map (·.identifier), s.parents, s.methods.map (·.identifier))) =
        [(["id"], [], []), (["next", "seen"], [a.findStructure "Base"], ["find"])] ∧
      MembersExact { modelMethods := true } (keyOf { modelMethods := true } Dump.Source.linked)
        Dump.Source.linked.upcoming a) := by
  constructor
  · have hbuilt : ∃ r ∈ build (.standard { modelMethods := true }) 9 Script.linked ⟨1⟩,
        r.1.structures.values.map (fun s =>
            (s.fields.map (·.identifier), s.parents, s.methods.map (·.identifier))) =
          [(["id"], [], []), (["next", "seen"], [r.1.findStructure "Base"], ["find"])] := by
      decide +kernel
    obtain ⟨⟨a, s'⟩, hb, hmembers⟩ := hbuilt
    have hexact := (build_membersExact _ 9 ⟨1⟩ a).1 _ s' Script.recorded_linked (by decide) hb
    exact ⟨a, s', hb, hmembers, hexact⟩
  · have hbuilt : ∃ r ∈ build (.standard { modelMethods := true }) 9 Dump.Source.linked ⟨1⟩,
        r.1.structures.values.map (fun s =>
            (s.fields.map (·.identifier), s.parents, s.methods.map (·.identifier))) =
          [(["id"], [], []), (["next", "seen"], [r.1.findStructure "Base"], ["find"])] := by
      decide +kernel
    obtain ⟨⟨a, s'⟩, hb, hmembers⟩ := hbuilt
    have hexact := (build_membersExact _ 9 ⟨1⟩ a).2 _ s' (by decide +kernel) hb
    exact ⟨a, s', hb, hmembers, hexact⟩

end DeclAtlas.Survey
