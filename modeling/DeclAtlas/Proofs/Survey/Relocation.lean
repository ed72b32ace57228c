import DeclAtlas.Proofs.Relocation
import DeclAtlas.Survey.Build

/-!
# Surveys after relocation

A survey does the same wherever its atlas is. Each of its steps can be made before or after
relocating the atlas, since steps find entries by name, and compare handles only with others
of the same atlas. So two builds that differ in the identifiers of their arenas alone have
the same snapshots.

## Main results

* `resolve_relocate`, `visit_relocate`: entering and visiting commute with relocation.
* `build_relocate`: an atlas built elsewhere is the atlas relocated.
-/

universe u

namespace DeclAtlas.Survey

open DeclarationSource

variable {σ : Type u} [DeclarationSource σ] {rules : SurveyRules} {src : σ}
  {f : ArenaId → ArenaId} {a : Atlas}

/-! ## Entering -/

theorem linkBase_relocate (hf : Function.Injective f) (h base : TypeHandle) (a : Atlas) :
    (linkBase h base a).relocate f =
      linkBase (h.relocate f) (base.relocate f) (a.relocate f) := by
  unfold linkBase
  by_cases heq : base = h
  · rw [if_pos heq, if_pos (congrArg _ heq)]
  · rw [if_neg heq, if_neg fun h' => heq (Handle.relocate_injective hf h')]
    refine Atlas.modifyType_relocate hf ?_ a h
    exact fun _ => rfl

theorem linkStructure_relocate (hf : Function.Injective f) (h : TypeHandle) (d : Declaration)
    (a : Atlas) :
    (linkStructure h d a).relocate f = linkStructure (h.relocate f) d (a.relocate f) := by
  unfold linkStructure
  split
  · rw [Atlas.enterStructure_relocate]
    dsimp only
    have hnamed (s : Structure) :
        (s.applyDeclaration d).relocate f = (s.relocate f).applyDeclaration d := rfl
    rw [← Atlas.modifyStructure_relocate hf hnamed]
    refine Atlas.modifyType_relocate hf ?_ _ h
    exact fun _ => rfl
  · rfl

theorem atEveryUse_relocate (hf : Function.Injective f) (rule : TypeRule) (h : TypeHandle)
    (a : Atlas) :
    (atEveryUse rule h a).relocate f = atEveryUse rule (h.relocate f) (a.relocate f) := by
  cases rule with
  | enumeration =>
      refine Atlas.modifyType_relocate hf ?_ a h
      exact fun _ => rfl
  | plain | element | record | typeAlias => rfl

/-- Entering a use commutes with relocation. -/
theorem resolve_relocate (hf : Function.Injective f) (fuel : Nat) (t : DeclaredType)
    (a : Atlas) :
    resolve rules src fuel t (a.relocate f) =
      (resolve rules src fuel t a).map fun p => (p.1.relocate f, p.2.relocate f) := by
  induction fuel generalizing t a with
  | zero => rfl
  | succ fuel ih =>
      rw [resolve, resolve]
      cases rules.types.handler? t.kind with
      | none => rfl
      | some rule =>
          dsimp only
          rw [Atlas.enterType_relocate]
          rcases a.enterType (canonical rules src t).identifier with ⟨h, isNew, b⟩
          dsimp only
          cases isNew with
          | false =>
              simp only [Bool.false_eq_true, if_false, Option.map_some,
                atEveryUse_relocate hf]
          | true =>
              have hopen (e : TypeEntry) :
                  (openLayer t.kind (canonical rules src t)
                    (isConst src (canonical rules src t)) e).relocate f =
                  openLayer t.kind (canonical rules src t)
                    (isConst src (canonical rules src t)) (e.relocate f) := rfl
              have hcomplete (e : TypeEntry) :
                  (complete e).relocate f = complete (e.relocate f) := rfl
              simp only [if_true]
              rw [← Atlas.modifyType_relocate hf hopen]
              cases below? rule src (canonical rules src t) with
              | some target =>
                  dsimp only
                  rw [ih, Option.map_map, Option.map_map]
                  congr 1
                  funext p
                  simp only [Function.comp_apply, atEveryUse_relocate hf,
                    Atlas.modifyType_relocate hf hcomplete, linkBase_relocate hf]
              | none =>
                  dsimp only
                  rw [Option.map_some, atEveryUse_relocate hf,
                    Atlas.modifyType_relocate hf hcomplete]
                  split
                  · rw [linkStructure_relocate hf]
                  · rfl

/-! ## Visiting -/

theorem pathNode_relocate (f : ArenaId → ArenaId) (a : Atlas) (d : Declaration) :
    pathNode (a.relocate f) d = (pathNode a d).relocate f := by
  unfold pathNode PathNode.relocate
  dsimp only
  rw [Atlas.findStructure_relocate]
  split
  · rfl
  · rfl

theorem pathOf_relocate (f : ArenaId → ArenaId) (src : σ) (a : Atlas) :
    pathOf src (a.relocate f) = (pathOf src a).map (·.relocate f) := by
  unfold pathOf
  rw [List.map_map]
  exact List.map_congr_left fun d _ => pathNode_relocate f a d

theorem modifyEnclosing_relocate (hf : Function.Injective f) {φ φ' : Structure → Structure}
    (h : ∀ s, (φ s).relocate f = φ' (s.relocate f)) (src : σ) (a : Atlas) :
    (modifyEnclosing src φ a).relocate f = modifyEnclosing src φ' (a.relocate f) := by
  unfold modifyEnclosing enclosingStructure?
  cases enclosing? src with
  | none => rfl
  | some d =>
      cases hd : d.kind.isStructure with
      | false => simp only [hd, Bool.false_eq_true, if_false]
      | true =>
          simp only [hd, if_true, Atlas.enterStructure_relocate,
            Atlas.modifyStructure_relocate hf h]

theorem visitStructure_relocate (hf : Function.Injective f) (src : σ) (d : Declaration)
    (a : Atlas) :
    (visitStructure src d a).relocate f = visitStructure src d (a.relocate f) := by
  unfold visitStructure
  rw [Atlas.enterStructure_relocate, pathOf_relocate]
  refine Atlas.modifyStructure_relocate hf ?_ ..
  exact fun _ => rfl

theorem visitBase_relocate (hf : Function.Injective f) (src : σ) (d : Declaration)
    (a : Atlas) : (visitBase src d a).relocate f = visitBase src d (a.relocate f) := by
  unfold visitBase
  rw [Atlas.enterStructure_relocate]
  dsimp only
  refine modifyEnclosing_relocate hf ?_ ..
  intro s
  simp [Structure.relocate]

theorem visitField_relocate (hf : Function.Injective f) (fuel : Nat) (d : Declaration)
    (a : Atlas) :
    visitField rules src fuel d (a.relocate f) =
      (visitField rules src fuel d a).map (·.relocate f) := by
  unfold visitField
  rw [resolve_relocate hf, Option.map_map, Option.map_map]
  congr 1
  funext p
  refine (modifyEnclosing_relocate hf ?_ ..).symm
  intro s
  simp [Structure.relocate, Field.relocate]

theorem visitMethod_relocate (hf : Function.Injective f) (fuel : Nat) (d : Declaration)
    (a : Atlas) :
    visitMethod rules src fuel d (a.relocate f) =
      (visitMethod rules src fuel d a).map (·.relocate f) := by
  unfold visitMethod
  split
  · rw [resolve_relocate hf, Option.map_map, Option.map_map]
    congr 1
    funext p
    refine (modifyEnclosing_relocate hf ?_ ..).symm
    intro s
    simp [Structure.relocate, Method.relocate]
  · rfl

theorem modifyLastWhere_map {α β : Type} {p : α → Bool} {q : β → Bool} {φ : α → α}
    {φ' : β → β} {ψ : α → β} (hp : ∀ x, q (ψ x) = p x) (h : ∀ x, ψ (φ x) = φ' (ψ x))
    (xs : List α) : (modifyLastWhere p φ xs).map ψ = modifyLastWhere q φ' (xs.map ψ) := by
  have hfirst : ∀ xs, (modifyLastWhere.first p φ xs).map ψ =
      modifyLastWhere.first q φ' (xs.map ψ) := by
    intro xs
    induction xs with
    | nil => rfl
    | cons x xs ih =>
        rw [List.map_cons, modifyLastWhere.first, modifyLastWhere.first, hp]
        split
        · rw [List.map_cons, h]
        · rw [List.map_cons, ih]
  unfold modifyLastWhere
  rw [List.map_reverse, hfirst, List.map_reverse]

theorem addParameter_relocate (f : ArenaId → ArenaId) (name : String) (p : MethodParameter)
    (s : Structure) :
    (addParameter name p s).relocate f = addParameter name (p.relocate f) (s.relocate f) := by
  have hmethods : (modifyLastWhere (·.qualifiedName = name)
        (fun m : Method => { m with parameters := m.parameters ++ [p] }) s.methods).map
          (·.relocate f) =
      modifyLastWhere (·.qualifiedName = name)
        (fun m => { m with parameters := m.parameters ++ [p.relocate f] })
        (s.methods.map (·.relocate f)) := by
    refine modifyLastWhere_map ?_ ?_ s.methods
    · exact fun _ => rfl
    · exact fun m => by simp [Method.relocate]
  unfold addParameter Structure.relocate
  dsimp only
  rw [hmethods]

theorem visitParameter_relocate (hf : Function.Injective f) (fuel : Nat) (d : Declaration)
    (a : Atlas) :
    visitParameter rules src fuel d (a.relocate f) =
      (visitParameter rules src fuel d a).map (·.relocate f) := by
  unfold visitParameter
  split
  · rename_i method owner _ _
    rw [Atlas.findStructure_relocate]
    dsimp only
    rw [Handle.isNull_relocate]
    split
    · rw [resolve_relocate hf, Option.map_map, Option.map_map]
      congr 1
      funext p
      have hadd := addParameter_relocate f method.qualifiedName ⟨p.1, d.identifier⟩
      exact (Atlas.modifyStructure_relocate hf hadd p.2 _).symm
    · rfl
  · rfl

/-- Visiting a declaration commutes with relocation. -/
theorem visit_relocate (hf : Function.Injective f) (fuel : Nat) (d : Declaration)
    (a : Atlas) :
    visit rules src fuel d (a.relocate f) =
      (visit rules src fuel d a).map (·.relocate f) := by
  unfold visit
  split
  · rename_i rule _
    cases rule with
    | ignore => rfl
    | enterStructure => exact congrArg some (visitStructure_relocate hf ..).symm
    | addParent => exact congrArg some (visitBase_relocate hf ..).symm
    | addField => exact visitField_relocate hf ..
    | addMethod => exact visitMethod_relocate hf ..
    | addParameter => exact visitParameter_relocate hf ..
  · rfl

/-! ## Building -/

theorem drain_relocate (hf : Function.Injective f) (fuel : Nat) (src : σ) (a : Atlas) :
    drain rules fuel src (a.relocate f) =
      (drain rules fuel src a).map fun r => (r.1.relocate f, r.2) := by
  induction fuel generalizing src a with
  | zero => rfl
  | succ fuel ih =>
      rw [drain, drain]
      split
      · rfl
      · rw [visit_relocate hf, Option.bind_map, Option.map_bind]
        congr 1
        funext b
        exact ih ..

/-- An atlas that is built elsewhere is the atlas relocated. -/
theorem build_relocate (hf : Function.Injective f) (fuel : Nat) (src : σ) (id : ArenaId) :
    build rules fuel src (f id) =
      (build rules fuel src id).map fun r => (r.1.relocate f, r.2) := by
  unfold build
  rw [← Atlas.relocate_empty, drain_relocate hf]

end DeclAtlas.Survey
