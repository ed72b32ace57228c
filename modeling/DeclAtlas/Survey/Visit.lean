import DeclAtlas.Survey.Resolve

/-!
# Visiting declarations

What one declaration adds to an atlas. Members go to the structure that directly encloses
them; a member that no structure encloses is dropped, though a type it uses or a base it
names is entered all the same. A structure that is declared again is refined: its members
stay, its path is the one of the latest visit, and its visibility the latest known one.

## Main results

* `visit_fuel_succ`: more fuel keeps a result.
-/

universe u

namespace DeclAtlas.Survey

open DeclarationSource

variable {σ : Type u} [DeclarationSource σ]

/-! ## What encloses the current declaration -/

/-- The declaration that directly encloses the current one. -/
def enclosing? (src : σ) : Option Declaration := (ancestors src).getLast?

/-- The structure that directly encloses the current declaration, found or entered. -/
def enclosingStructure? (src : σ) (atlas : Atlas) : Option (StructureHandle × Atlas) :=
  match enclosing? src with
  | some d =>
    if d.kind.isStructure then
      let (h, _, atlas) := atlas.enterStructure d.qualifiedName
      some (h, atlas)
    else none
  | none => none

/-- One scope of a path. A structure is looked up, never entered. -/
def pathNode (atlas : Atlas) (d : Declaration) : PathNode where
  identifier := d.identifier
  structureHandle :=
    if d.kind.isStructure then atlas.findStructure d.qualifiedName else .null
  kind := .ofDeclaration d.kind

/-- The scopes around the current declaration, outermost first. -/
def pathOf (src : σ) (atlas : Atlas) : List PathNode := (ancestors src).map (pathNode atlas)

/-- Changes the structure that directly encloses the current declaration, if one does. -/
def modifyEnclosing (src : σ) (f : Structure → Structure) (atlas : Atlas) : Atlas :=
  match enclosingStructure? src atlas with
  | some (h, atlas) => atlas.modifyStructure h f
  | none => atlas

/-! ## The rules -/

/-- Enters or refines the declared structure. -/
def visitStructure (src : σ) (d : Declaration) (atlas : Atlas) : Atlas :=
  let path := pathOf src atlas
  let v := visibility src d
  let (h, _, atlas) := atlas.enterStructure d.qualifiedName
  atlas.modifyStructure h fun s =>
    { s.applyDeclaration d with
      path := path
      visibility := if v = .invalid then s.visibility else v }

/-- Enters the named base and makes it a parent of the enclosing structure. -/
def visitBase (src : σ) (d : Declaration) (atlas : Atlas) : Atlas :=
  let (base, _, atlas) := atlas.enterStructure d.qualifiedName
  modifyEnclosing src (fun s => { s with parents := s.parents ++ [base] }) atlas

/-- Enters the type of a field and adds the field to the enclosing structure. -/
def visitField (rules : SurveyRules) (src : σ) (fuel : Nat) (d : Declaration)
    (atlas : Atlas) : Option Atlas :=
  (resolve rules src fuel (declaredType src d) atlas).map fun (h, atlas) =>
    let field : Field := ⟨d.location, d.qualifiedName, d.identifier, h, visibility src d⟩
    modifyEnclosing src (fun s => { s with fields := s.fields ++ [field] }) atlas

/-- Enters the return type of a method and adds the method to the enclosing structure. -/
def visitMethod (rules : SurveyRules) (src : σ) (fuel : Nat) (d : Declaration)
    (atlas : Atlas) : Option Atlas :=
  if rules.options.modelMethods && (enclosing? src).any (·.kind.isStructure) then
    (resolve rules src fuel (declaredType src d) atlas).map fun (h, atlas) =>
      let method : Method :=
        ⟨[], d.location, d.identifier, d.qualifiedName, h, visibility src d, methodFlags src d⟩
      modifyEnclosing src (fun s => { s with methods := s.methods ++ [method] }) atlas
  else some atlas

/-- A list with `f` applied to the last element that has the property. -/
def modifyLastWhere {α : Type u} (p : α → Bool) (f : α → α) (xs : List α) : List α :=
  (first xs.reverse).reverse
where
  /-- A list with `f` applied to the first element that has the property. -/
  first : List α → List α
    | [] => []
    | x :: xs => if p x then f x :: xs else x :: first xs

/-- Adds a parameter to the latest method with a name. -/
def addParameter (methodName : String) (p : MethodParameter) (s : Structure) : Structure :=
  { s with
    methods := modifyLastWhere (·.qualifiedName = methodName)
      (fun m => { m with parameters := m.parameters ++ [p] }) s.methods }

/--
Enters the type of a parameter and adds the parameter to the enclosing method, if that
is a method of a structure which has been entered.
-/
def visitParameter (rules : SurveyRules) (src : σ) (fuel : Nat) (d : Declaration)
    (atlas : Atlas) : Option Atlas :=
  match (ancestors src).reverse with
  | method :: owner :: _ =>
    let h := atlas.findStructure owner.qualifiedName
    if rules.options.modelMethods && method.kind = .method && owner.kind.isStructure
        && !h.isNull then
      (resolve rules src fuel (declaredType src d) atlas).map fun (t, atlas) =>
        atlas.modifyStructure h (addParameter method.qualifiedName ⟨t, d.identifier⟩)
    else some atlas
  | _ => some atlas

/-! ## One declaration -/

/-- What a rule makes of a declaration; `none` when the fuel runs out. -/
def applyRule (rules : SurveyRules) (src : σ) (fuel : Nat) (rule : DeclarationRule)
    (d : Declaration) (atlas : Atlas) : Option Atlas :=
  match rule with
  | .ignore => some atlas
  | .enterStructure => some (visitStructure src d atlas)
  | .addParent => some (visitBase src d atlas)
  | .addField => visitField rules src fuel d atlas
  | .addMethod => visitMethod rules src fuel d atlas
  | .addParameter => visitParameter rules src fuel d atlas

/-- What a declaration adds to an atlas; `none` when the fuel runs out. -/
def visit (rules : SurveyRules) (src : σ) (fuel : Nat) (d : Declaration) (atlas : Atlas) :
    Option Atlas :=
  match rules.declarations.handler? d.kind with
  | some rule => applyRule rules src fuel rule d atlas
  | none => some atlas

/-- More fuel keeps a result. -/
theorem visit_fuel_succ {rules : SurveyRules} {src : σ} {fuel : Nat} {d : Declaration}
    {atlas r : Atlas} (h : visit rules src fuel d atlas = some r) :
    visit rules src (fuel + 1) d atlas = some r := by
  unfold visit at h ⊢
  split at h
  · rename_i rule _
    cases rule with
    | ignore | enterStructure | addParent => exact h
    | addField =>
      obtain ⟨p, hp, rfl⟩ := Option.map_eq_some_iff.1 h
      simp only [applyRule, visitField, resolve_fuel_succ hp, Option.map_some]
    | addMethod =>
      simp only [applyRule, visitMethod] at h ⊢
      split at h
      · rename_i hc
        obtain ⟨p, hp, rfl⟩ := Option.map_eq_some_iff.1 h
        simp only [hc, if_true, resolve_fuel_succ hp, Option.map_some]
      · rename_i hc; rw [if_neg hc]; exact h
    | addParameter =>
      simp only [applyRule, visitParameter] at h ⊢
      split at h
      · split at h
        · rename_i hc
          obtain ⟨p, hp, rfl⟩ := Option.map_eq_some_iff.1 h
          rw [if_pos hc, resolve_fuel_succ hp]; rfl
        · rename_i hc; rw [if_neg hc]; exact h
      · exact h
  · exact h

end DeclAtlas.Survey
