import DeclAtlas.Proofs.Source.Reading
import DeclAtlas.Proofs.Survey.Filling
import DeclAtlas.Survey.Build

/-!
# Runs of a survey

`Visits` says what one declaration does to an atlas and `Runs` what the rest of a source
does, both without fuel. They are the step and the run of a survey: what a step preserves,
a run preserves, and no proof has to open the rules again.

On the way a run notes every use of a type that it entered, with the calls that this made.
The calls that made entries, taken together, account for every type entry there is.

## Main results

* `visit_eq_some_iff`, `runs_of_build`: the rules and the loop are these relations.
* `Visits.grows`, `Runs.grows`: nothing is ever lost.
* `Runs.foldl`: what visits make of a part of the atlas, a run makes of it item by item.
* `Runs.filled`: at the end every entry is what the use that made it says, provided that
  reading on does not change what a source knows of types.
-/

universe u v

namespace DeclAtlas.Survey

open DeclarationSource

variable {σ : Type u} [DeclarationSource σ] {o : SurveyOptions} {src src' : σ}
  {d : Declaration} {a a' : Atlas} {k : String} {e : TypeEntry} {h : TypeHandle}

/-! ## The usual rules for declarations -/

/-- The rule that goes with a kind of declarations in the usual table. -/
def declarationRuleOf : DeclarationKind → DeclarationRule
  | .structDecl | .classDecl => .enterStructure
  | .baseSpecifier => .addParent
  | .field => .addField
  | .method => .addMethod
  | .parameter => .addParameter
  | .unsupported | .function | .namespaceDecl => .ignore

theorem visit_standard (o : SurveyOptions) (src : σ) (fuel : Nat) (d : Declaration)
    (a : Atlas) :
    visit (.standard o) src fuel d a =
      applyRule (.standard o) src fuel (declarationRuleOf d.kind) d a := by
  have hrule : (SurveyRules.standard o).declarations.handler? d.kind =
      some (declarationRuleOf d.kind) := by
    cases d.kind <;> rfl
  rw [visit, hrule]

/-! ## Where members go -/

/-- The name of the structure that directly encloses what stands inside `ancestors`. -/
def owner? (ancestors : List Declaration) : Option String :=
  (ancestors.getLast?.filter (·.kind.isStructure)).map (·.qualifiedName)

/-- Is a method entered here? -/
def entersMethod (o : SurveyOptions) (src : σ) : Bool :=
  o.modelMethods && (owner? (ancestors src)).isSome

/-- The enclosing method and the handle of its structure, if a parameter is entered here. -/
def parameterOwner? (o : SurveyOptions) (src : σ) (a : Atlas) :
    Option (String × StructureHandle) :=
  match (ancestors src).reverse with
  | method :: owner :: _ =>
    if o.modelMethods && method.kind = .method && owner.kind.isStructure
        && !(a.findStructure owner.qualifiedName).isNull then
      some (method.qualifiedName, a.findStructure owner.qualifiedName)
    else none
  | _ => none

theorem modifyEnclosing_eq (src : σ) (f : Structure → Structure) (a : Atlas) :
    modifyEnclosing src f a =
      match owner? (ancestors src) with
      | some n => a.refine n f
      | none => a := by
  unfold modifyEnclosing enclosingStructure? enclosing? owner?
  cases (ancestors src).getLast? with
  | none => rfl
  | some d =>
      cases hd : d.kind.isStructure with
      | false => simp [hd, Option.filter]
      | true =>
          simp only [hd, if_true, Option.filter, Option.map_some]
          rfl

theorem visitStructure_eq (src : σ) (d : Declaration) (a : Atlas) :
    visitStructure src d a = a.refine d.qualifiedName fun s =>
      { s.applyDeclaration d with
        path := pathOf src a
        visibility := if visibility src d = .invalid then s.visibility
          else visibility src d } := rfl

/-- A structure with a further parent. -/
def addParent (h : StructureHandle) (s : Structure) : Structure :=
  { s with parents := s.parents ++ [h] }

theorem visitBase_eq (src : σ) (d : Declaration) (a : Atlas) :
    visitBase src d a =
      modifyEnclosing src
        (addParent ((a.enterStructure d.qualifiedName).2.2.findStructure d.qualifiedName))
        (a.enterStructure d.qualifiedName).2.2 := by
  rw [← Atlas.enterStructure_fst]
  rfl

/-- A structure with a further field. -/
def addField (f : Field) (s : Structure) : Structure := { s with fields := s.fields ++ [f] }

/-- The field that a declaration is, with its type under `h`. -/
def fieldFor (src : σ) (d : Declaration) (h : TypeHandle) : Field :=
  ⟨d.location, d.qualifiedName, d.identifier, h, visibility src d⟩

/-- A structure with a further method. -/
def addMethod (m : Method) (s : Structure) : Structure := { s with methods := s.methods ++ [m] }

/-- The method that a declaration is, with its return type under `h`. -/
def methodFor (src : σ) (d : Declaration) (h : TypeHandle) : Method :=
  ⟨[], d.location, d.identifier, d.qualifiedName, h, visibility src d, methodFlags src d⟩

/-! ## One declaration -/

/-- A use of a type by a declaration, with the calls that entering it made. -/
structure Use where
  declaration : Declaration
  type : DeclaredType
  calls : List Call
deriving DecidableEq, Inhabited

/-- The uses for which entries were made, in the order of the entries. -/
def created (uses : List Use) : List DeclaredType := uses.flatMap fun u => newUses u.calls

theorem created_append (us vs : List Use) : created (us ++ vs) = created us ++ created vs :=
  List.flatMap_append

theorem created_singleton (u : Use) : created [u] = newUses u.calls := by
  simp [created]

theorem eq_of_isStructure {kind : DeclarationKind} (hk : kind.isStructure = true) :
    kind = .structDecl ∨ kind = .classDecl := by
  cases kind with
  | structDecl => exact Or.inl rfl
  | classDecl => exact Or.inr rfl
  | _ => exact Bool.noConfusion hk

/-- Does a declaration leave the atlas as it is? -/
def IsIdle (o : SurveyOptions) (src : σ) (d : Declaration) (a : Atlas) : Prop :=
  match d.kind with
  | .structDecl | .classDecl | .baseSpecifier | .field => False
  | .method => entersMethod o src = false
  | .parameter => parameterOwner? o src a = none
  | .unsupported | .function | .namespaceDecl => True

/-- `Visits o src d a uses a'`: visiting `d` enters the types `uses` and leads from `a` to
`a'`. -/
inductive Visits (o : SurveyOptions) (src : σ) (d : Declaration) :
    Atlas → List Use → Atlas → Prop where
  | idle {a : Atlas} (hi : IsIdle o src d a) : Visits o src d a [] a
  | record {a : Atlas} (hk : d.kind.isStructure = true) :
      Visits o src d a [] (visitStructure src d a)
  | base {a : Atlas} (hk : d.kind = .baseSpecifier) : Visits o src d a [] (visitBase src d a)
  | field {a a' : Atlas} {calls : List Call} {h : TypeHandle} (hk : d.kind = .field)
      (he : Enters o src (declaredType src d) a calls h a') :
      Visits o src d a [⟨d, declaredType src d, calls⟩]
        (modifyEnclosing src (addField (fieldFor src d h)) a')
  | method {a a' : Atlas} {calls : List Call} {h : TypeHandle} (hk : d.kind = .method)
      (hm : entersMethod o src = true)
      (he : Enters o src (declaredType src d) a calls h a') :
      Visits o src d a [⟨d, declaredType src d, calls⟩]
        (modifyEnclosing src (addMethod (methodFor src d h)) a')
  | parameter {a a' : Atlas} {calls : List Call} {h : TypeHandle} {name : String}
      {owner : StructureHandle} (hk : d.kind = .parameter)
      (ho : parameterOwner? o src a = some (name, owner))
      (he : Enters o src (declaredType src d) a calls h a') :
      Visits o src d a [⟨d, declaredType src d, calls⟩]
        (a'.modifyStructure owner (addParameter name ⟨h, d.identifier⟩))

theorem visitMethod_eq (o : SurveyOptions) (src : σ) (fuel : Nat) (d : Declaration)
    (a : Atlas) :
    visitMethod (.standard o) src fuel d a =
      if entersMethod o src = true then
        (resolve (.standard o) src fuel (declaredType src d) a).map fun p =>
          modifyEnclosing src (addMethod (methodFor src d p.1)) p.2
      else some a := by
  have hany : (enclosing? src).any (·.kind.isStructure) =
      (owner? (ancestors src)).isSome := by
    unfold enclosing? owner?
    cases (ancestors src).getLast? with
    | none => rfl
    | some d => cases hd : d.kind.isStructure <;> simp [hd, Option.filter]
  unfold visitMethod entersMethod
  rw [hany]
  rfl

theorem visitParameter_eq (o : SurveyOptions) (src : σ) (fuel : Nat) (d : Declaration)
    (a : Atlas) :
    visitParameter (.standard o) src fuel d a =
      match parameterOwner? o src a with
      | some (name, owner) =>
        (resolve (.standard o) src fuel (declaredType src d) a).map fun p =>
          p.2.modifyStructure owner (addParameter name ⟨p.1, d.identifier⟩)
      | none => some a := by
  unfold visitParameter parameterOwner?
  rw [show (SurveyRules.standard o).options.modelMethods = o.modelMethods from rfl]
  rcases (ancestors src).reverse with _ | ⟨method, _ | ⟨owner, rest⟩⟩
  · rfl
  · rfl
  · cases hc : o.modelMethods && method.kind = .method && owner.kind.isStructure
        && !(a.findStructure owner.qualifiedName).isNull with
    | true =>
        simp only [hc, if_true]
    | false => simp only [hc, Bool.false_eq_true, if_false]

private theorem enters_of_map {fuel : Nat} {t : DeclaredType}
    {f : TypeHandle × Atlas → Atlas}
    (hr : (resolve (.standard o) src fuel t a).map f = some a') :
    ∃ calls h b, Enters o src t a calls h b ∧ calls.length ≤ fuel ∧ f (h, b) = a' := by
  obtain ⟨p, hp, hf⟩ := Option.map_eq_some_iff.1 hr
  obtain ⟨calls, he, hlen⟩ := resolve_eq_some_iff.1 hp
  exact ⟨calls, p.1, p.2, he, hlen, hf⟩

private theorem visits_of_visit {fuel : Nat}
    (hv : visit (.standard o) src fuel d a = some a') :
    ∃ uses, Visits o src d a uses a' ∧ ∀ u ∈ uses, u.calls.length ≤ fuel := by
  rw [visit_standard] at hv
  cases hk : d.kind <;> rw [hk] at hv
  case structDecl | classDecl =>
    obtain rfl := Option.some.inj hv
    exact ⟨[], .record (by rw [hk]; rfl), by simp⟩
  case baseSpecifier =>
    obtain rfl := Option.some.inj hv
    exact ⟨[], .base hk, by simp⟩
  case field =>
    obtain ⟨calls, h, b, he, hlen, rfl⟩ := enters_of_map hv
    exact ⟨[⟨d, _, calls⟩], .field hk he, by simpa using hlen⟩
  case method =>
    rw [declarationRuleOf, applyRule, visitMethod_eq] at hv
    split at hv
    · rename_i hm
      obtain ⟨calls, h, b, he, hlen, rfl⟩ := enters_of_map hv
      exact ⟨[⟨d, _, calls⟩], .method hk hm he, by simpa using hlen⟩
    · rename_i hm
      obtain rfl := Option.some.inj hv
      exact ⟨[], .idle (by simpa [IsIdle, hk] using hm), by simp⟩
  case parameter =>
    rw [declarationRuleOf, applyRule, visitParameter_eq] at hv
    split at hv
    · rename_i ho
      obtain ⟨calls, h, b, he, hlen, rfl⟩ := enters_of_map hv
      exact ⟨[⟨d, _, calls⟩], .parameter hk ho he, by simpa using hlen⟩
    · rename_i ho
      obtain rfl := Option.some.inj hv
      exact ⟨[], .idle (by simpa [IsIdle, hk] using ho), by simp⟩
  case unsupported | function | namespaceDecl =>
    obtain rfl := Option.some.inj hv
    exact ⟨[], .idle (by simp [IsIdle, hk]), by simp⟩

private theorem Visits.visit {uses : List Use} {fuel : Nat} (hv : Visits o src d a uses a')
    (hlen : ∀ u ∈ uses, u.calls.length ≤ fuel) :
    visit (.standard o) src fuel d a = some a' := by
  rw [visit_standard]
  cases hv with
  | idle hi =>
      unfold IsIdle at hi
      cases hk : d.kind <;> rw [hk] at hi
      case structDecl | classDecl | baseSpecifier | field => exact hi.elim
      case method =>
        rw [declarationRuleOf, applyRule, visitMethod_eq, if_neg (by simp [hi])]
      case parameter => rw [declarationRuleOf, applyRule, visitParameter_eq, hi]
      case unsupported | function | namespaceDecl => rfl
  | record hk =>
      rcases eq_of_isStructure hk with hd | hd
      · rw [hd]
        rfl
      · rw [hd]
        rfl
  | base hk =>
      rw [hk]
      rfl
  | @field b calls h hk he =>
      have hr := resolve_eq_some_iff.2 ⟨calls, he, hlen _ (List.mem_singleton_self _)⟩
      rw [hk, declarationRuleOf, applyRule, visitField, hr]
      rfl
  | @method b calls h hk hm he =>
      have hr := resolve_eq_some_iff.2 ⟨calls, he, hlen _ (List.mem_singleton_self _)⟩
      rw [hk, declarationRuleOf, applyRule, visitMethod_eq, if_pos hm, hr]
      rfl
  | @parameter b calls h name owner hk ho he =>
      have hr := resolve_eq_some_iff.2 ⟨calls, he, hlen _ (List.mem_singleton_self _)⟩
      rw [hk, declarationRuleOf, applyRule, visitParameter_eq, ho, hr]
      rfl

/-- A result of visiting is a step that makes no more calls for a type than there is
fuel. -/
theorem visit_eq_some_iff {fuel : Nat} :
    visit (.standard o) src fuel d a = some a' ↔
      ∃ uses, Visits o src d a uses a' ∧ ∀ u ∈ uses, u.calls.length ≤ fuel :=
  ⟨visits_of_visit, fun ⟨_, hv, hlen⟩ => hv.visit hlen⟩

theorem grows_modifyEnclosing (src : σ) (f : Structure → Structure) (a : Atlas) :
    a.Grows (modifyEnclosing src f a) := by
  rw [modifyEnclosing_eq]
  split
  · exact .refine ..
  · exact .refl _

theorem types_modifyEnclosing (src : σ) (f : Structure → Structure) (a : Atlas) :
    (modifyEnclosing src f a).types = a.types := by
  rw [modifyEnclosing_eq]
  split
  · rfl
  · rfl

/-- A visit either enters the type of its declaration or leaves all types alone. -/
theorem Visits.types {uses : List Use} (hv : Visits o src d a uses a') :
    (uses = [] ∧ a.Grows a' ∧ a'.types = a.types) ∨
      ∃ calls h b, uses = [⟨d, declaredType src d, calls⟩] ∧
        Enters o src (declaredType src d) a calls h b ∧ b.Grows a' ∧ a'.types = b.types := by
  cases hv with
  | idle hi => exact Or.inl ⟨rfl, .refl _, rfl⟩
  | record hk => exact Or.inl ⟨rfl, .refine .., rfl⟩
  | base hk =>
      rw [visitBase_eq]
      exact Or.inl ⟨rfl, (Atlas.Grows.enterStructure ..).trans (grows_modifyEnclosing ..),
        types_modifyEnclosing ..⟩
  | field hk he =>
      exact Or.inr ⟨_, _, _, rfl, he, grows_modifyEnclosing .., types_modifyEnclosing ..⟩
  | method hk hm he =>
      exact Or.inr ⟨_, _, _, rfl, he, grows_modifyEnclosing .., types_modifyEnclosing ..⟩
  | parameter hk ho he => exact Or.inr ⟨_, _, _, rfl, he, .modifyStructure .., rfl⟩

theorem Visits.grows {uses : List Use} (hv : Visits o src d a uses a') : a.Grows a' := by
  rcases hv.types with ⟨-, hg, -⟩ | ⟨_, _, _, -, he, hg, -⟩
  · exact hg
  · exact he.grows.trans hg

/-! ## The rest of a source -/

/-- `Runs o src a uses a' src'`: visiting what is left in `src` enters the types `uses`, and
leads from `a` to `a'` and to the end of the source `src'`. -/
inductive Runs (o : SurveyOptions) : σ → Atlas → List Use → Atlas → σ → Prop where
  | done {src : σ} {a : Atlas} (hend : (next src).1.isEmpty = true) :
      Runs o src a [] a (next src).2
  | step {src src' : σ} {a b a' : Atlas} {us vs : List Use}
      (hread : (next src).1.isEmpty = false)
      (hv : Visits o (next src).2 (next src).1 a us b)
      (hr : Runs o (next src).2 b vs a' src') : Runs o src a (us ++ vs) a' src'

theorem runs_of_drain {fuel : Nat} {r : Atlas × σ}
    (hd : drain (.standard o) fuel src a = some r) : ∃ uses, Runs o src a uses r.1 r.2 := by
  induction fuel generalizing src a with
  | zero => exact nomatch hd
  | succ fuel ih =>
      rw [drain] at hd
      cases he : (next src).1.isEmpty with
      | true =>
          simp only [he, if_true] at hd
          cases Option.some.inj hd
          exact ⟨[], .done he⟩
      | false =>
          simp only [he, Bool.false_eq_true, if_false] at hd
          obtain ⟨b, hb, hd⟩ := Option.bind_eq_some_iff.1 hd
          obtain ⟨us, hv, -⟩ := visit_eq_some_iff.1 hb
          obtain ⟨vs, hr⟩ := ih hd
          exact ⟨us ++ vs, .step he hv hr⟩

/-- Every result of building is that of a run from an empty atlas. -/
theorem runs_of_build {fuel : Nat} {id : ArenaId}
    (hb : build (.standard o) fuel src id = some (a, src')) :
    ∃ uses, Runs o src (Atlas.empty id) uses a src' :=
  runs_of_drain hb

namespace Runs

variable {uses : List Use} {x : TypeHandle}

theorem grows (hr : Runs o src a uses a' src') : a.Grows a' := by
  induction hr with
  | done hend => exact .refl _
  | step hread hv _ ih => exact hv.grows.trans ih

theorem nodup (hr : Runs o src a uses a' src') (hn : a.types.keys.Nodup) :
    a'.types.keys.Nodup := by
  induction hr with
  | done hend => exact hn
  | step hread hv _ ih =>
      apply ih
      rcases hv.types with ⟨-, -, ht⟩ | ⟨_, _, _, -, he, -, ht⟩
      · rwa [ht]
      · rw [ht]
        exact he.nodup hn

/-- What was there stays, but for the mark that it is not modelled. -/
theorem kept (hr : Runs o src a uses a' src') (hh : a.types.Holds x k e) :
    ∃ e', a'.types.Holds x k e' ∧ e.Kept e' := by
  induction hr generalizing e with
  | done hend => exact ⟨e, hh, .refl e⟩
  | step hread hv _ ih =>
      rcases hv.types with ⟨-, -, ht⟩ | ⟨_, _, _, -, he, -, ht⟩
      · exact ih (ht ▸ hh)
      · obtain ⟨e₁, hh₁, hk₁⟩ := he.kept hh
        obtain ⟨e₂, hh₂, hk₂⟩ := ih (ht ▸ hh₁)
        exact ⟨e₂, hh₂, hk₁.trans hk₂⟩

end Runs

/-! ## Sources whose types are steady -/

section Steady

variable [SteadyTypes σ]

@[simp] theorem formOf_next (o : SurveyOptions) (src : σ) :
    formOf o (next src).2 = formOf o src := by
  funext t
  unfold formOf canonical
  rw [SteadyTypes.stripAlias_next]

@[simp] theorem keyOf_next (o : SurveyOptions) (src : σ) :
    keyOf o (next src).2 = keyOf o src := by
  funext t
  unfold keyOf
  rw [formOf_next]

@[simp] theorem targetOf?_next (o : SurveyOptions) (src : σ) :
    targetOf? o (next src).2 = targetOf? o src := by
  funext t
  unfold targetOf? below?
  rw [formOf_next, SteadyTypes.stripAlias_next, SteadyTypes.element_next]

theorem filled_next {u : DeclaredType} :
    Filled o (next src).2 u a e ↔ Filled o src u a e := by
  have hbase : baseKey? o (next src).2 u = baseKey? o src u := by
    unfold baseKey?
    rw [targetOf?_next, keyOf_next]
  have hrecord : recordName? o (next src).2 u = recordName? o src u := by
    unfold recordName?
    rw [formOf_next, SteadyTypes.typeDeclaration_next]
  have hlayer : OwnLayer o (next src).2 u e ↔ OwnLayer o src u e := by
    constructor
    · rintro ⟨h₁, h₂, h₃, h₄, h₅, h₆⟩
      rw [keyOf_next] at h₁ h₂
      rw [formOf_next] at h₃ h₄
      rw [SteadyTypes.isConst_next] at h₄
      exact ⟨h₁, h₂, h₃, h₄, h₅, h₆⟩
    · rintro ⟨h₁, h₂, h₃, h₄, h₅, h₆⟩
      refine ⟨?_, ?_, ?_, ?_, h₅, h₆⟩
      · rwa [keyOf_next]
      · rwa [keyOf_next]
      · rwa [formOf_next]
      · rwa [formOf_next, SteadyTypes.isConst_next]
  constructor
  · rintro ⟨h₁, h₂, h₃, h₄⟩
    exact ⟨hlayer.1 h₁, hbase ▸ h₂, hrecord ▸ h₃, h₄⟩
  · rintro ⟨h₁, h₂, h₃, h₄⟩
    exact ⟨hlayer.2 h₁, hbase ▸ h₂, hrecord ▸ h₃, h₄⟩

namespace Runs

variable {uses : List Use}

/-- The names added in a run are those of the uses that made entries, in order. -/
theorem keys (hr : Runs o src a uses a' src') :
    a'.types.keys = a.types.keys ++ (created uses).map (keyOf o src) := by
  induction hr with
  | done hend => simp [created]
  | @step src src' a b a' us vs hread hv _ ih =>
      rw [ih, keyOf_next, created_append, List.map_append, ← List.append_assoc]
      congr 1
      rcases hv.types with ⟨rfl, -, ht⟩ | ⟨calls, _, _, rfl, he, -, ht⟩
      · simp [created, ht]
      · rw [ht, he.keys, created_singleton, keyOf_next]

/-- At the end of a run every entry made in it is what the use that made it says. -/
theorem filled (hr : Runs o src a uses a' src') :
    ∀ u ∈ created uses, ∃ e, a'.types.Holds (a'.findType (keyOf o src u)) (keyOf o src u) e ∧
      Filled o src u a' e := by
  induction hr with
  | done hend => simp [created]
  | @step src src' a b a' us vs hread hv hr ih =>
      intro u hu
      rw [created_append] at hu
      rcases List.mem_append.1 hu with hu | hu
      · rcases hv.types with ⟨rfl, -, -⟩ | ⟨calls, _, c, rfl, he, hg, ht⟩
        · exact absurd hu (by simp [created])
        · rw [created_singleton] at hu
          obtain ⟨e, hh, hf⟩ := he.filled u hu
          rw [keyOf_next] at hh
          have hb : b.types.Holds (b.findType (keyOf o src u)) (keyOf o src u) e := by
            unfold Atlas.findType
            rwa [ht]
          obtain ⟨e', hh', hkept⟩ := hr.kept hb
          rw [hr.grows.findType hb.mem_keys]
          exact ⟨e', hh', (filled_next.1 hf).mono (hg.trans hr.grows) hkept⟩
      · obtain ⟨e, hh, hf⟩ := ih u hu
        rw [keyOf_next] at hh
        exact ⟨e, hh, filled_next.1 hf⟩

/-- What each visit makes of a part of the atlas, a run makes of it item by item. Handles are
looked up in an atlas that has all that the run leads to. -/
theorem foldl {β : Type v} {items : List Item} {part : Atlas → β} {step : β → Item → β}
    {key : DeclaredType → String} {c : Atlas} (hr : Runs o src a uses a' src')
    (hd : Delivers src items) (hkey : keyOf o src = key) (hgrows : a'.Grows c)
    (hvisit : ∀ {src : σ} {d a us a'}, Visits o src d a us a' → keyOf o src = key → a'.Grows c →
      part a' = step (part a) (itemOf src d)) :
    part a' = items.foldl step (part a) := by
  induction hr generalizing items with
  | done hend =>
      cases hd with
      | done _ => rfl
      | step hread _ _ => exact absurd (hend.symm.trans hread) (by decide)
  | step hread hv hr ih =>
      cases hd with
      | done hend => exact absurd (hend.symm.trans hread) (by decide)
      | step _ hi hd =>
          have hnext := (keyOf_next o _).trans hkey
          rw [ih hd hnext hgrows, hvisit hv hnext (hr.grows.trans hgrows), List.foldl_cons, hi]

/-- Every entry of an atlas that was empty before a run was made by a use, under its name. -/
theorem exists_created {id : ArenaId} {x : TypeHandle}
    (hr : Runs o src (Atlas.empty id) uses a' src') (he : a'.types.get? x = some e) :
    ∃ u ∈ created uses, a'.types.Holds x (keyOf o src u) e ∧ Filled o src u a' e := by
  obtain ⟨k, hk⟩ := Registry.get?_eq_some_iff.1 he
  have hmem : k ∈ (created uses).map (keyOf o src) := by
    have hkeys := hr.keys
    rw [show (Atlas.empty id).types.keys = [] from rfl, List.nil_append] at hkeys
    rw [← hkeys]
    exact hk.mem_keys
  obtain ⟨u, hu, rfl⟩ := List.mem_map.1 hmem
  obtain ⟨e', he', hf⟩ := hr.filled u hu
  have hfind : a'.findType (keyOf o src u) = x := hk.find (hr.nodup List.nodup_nil)
  rw [hfind] at he'
  obtain ⟨-, rfl⟩ := hk.unique he'
  exact ⟨u, hu, hk, hf⟩

end Runs

end Steady

end DeclAtlas.Survey
