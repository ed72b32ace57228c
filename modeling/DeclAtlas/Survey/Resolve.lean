import DeclAtlas.Atlas
import DeclAtlas.Source.Basic
import DeclAtlas.Survey.Rules

/-!
# Entering types

A use of a type is entered under its canonical spelling: aliases are replaced one step at a
time until the type is itself of kind `typedef`, a step changes nothing, or the bound on
steps is met. Only the use that creates an entry fills it in. The entry is there before
what lies below it is entered, so a type that leads back to itself finds its own entry.

Entering can go on for ever when aliases keep adding layers, so it is given fuel: one unit
for each level of entering. Running out is an outcome of its own, apart from every result.

## Main results

* `canonical_typedef`: following aliases stops at a type that is itself of kind `typedef`.
* `resolve_fuel_succ`: more fuel keeps a result.
-/

universe u

namespace DeclAtlas.Survey

open DeclarationSource

variable {σ : Type u} [DeclarationSource σ]

/-! ## Canonical forms -/

/-- Replaces aliases by `step`, at most `bound` times. -/
def followAliases (step : DeclaredType → DeclaredType) : Nat → DeclaredType → DeclaredType
  | 0, t => t
  | bound + 1, t =>
    if t.kind = .typedef then t
    else
      let t' := step t
      if t' = t then t else followAliases step bound t'

/-- The canonical form of a type. -/
def canonical (rules : SurveyRules) (src : σ) (t : DeclaredType) : DeclaredType :=
  followAliases (stripAlias src) rules.options.maxAliasDepth t

section FollowAliases

variable {step : DeclaredType → DeclaredType} {t : DeclaredType}

theorem followAliases_typedef (h : t.kind = .typedef) (bound : Nat) :
    followAliases step bound t = t := by
  cases bound <;> simp [followAliases, h]

theorem followAliases_fixed (h : step t = t) (bound : Nat) :
    followAliases step bound t = t := by
  cases bound <;> simp [followAliases, h]

/-- A step that changes a type of another kind is taken. -/
theorem followAliases_step (hk : t.kind ≠ .typedef) (h : step t ≠ t) (bound : Nat) :
    followAliases step (bound + 1) t = followAliases step bound (step t) := by
  rw [followAliases, if_neg hk]
  exact if_neg h

end FollowAliases

theorem canonical_typedef {rules : SurveyRules} {src : σ} {t : DeclaredType}
    (h : t.kind = .typedef) : canonical rules src t = t :=
  followAliases_typedef h _

/-! ## Filling an entry in -/

/-- An entry with what is known of its own layer; the layers below come next. -/
def openLayer (kind : TypeKind) (canonical : DeclaredType) (isConst : Bool)
    (e : TypeEntry) : TypeEntry :=
  { e with
    identifier := canonical.identifier
    qualifiedName := canonical.identifier
    dimensions := canonical.dimensions
    isConst := isConst
    kind := kind
    state := .resolving }

/-- The type to enter as the base of a canonical one, if its rule asks for one. -/
def below? (rule : TypeRule) (src : σ) (canonical : DeclaredType) : Option DeclaredType :=
  let target := match rule with
    | .element => some (element src canonical)
    | .typeAlias => some (stripAlias src canonical)
    | _ => none
  target.filter fun t => t ≠ canonical && t.identifier ≠ ""

/-- Makes `base` the base of an entry, unless it is that entry itself. -/
def linkBase (h base : TypeHandle) (atlas : Atlas) : Atlas :=
  if base = h then atlas else atlas.modifyType h fun e => { e with base := base }

/--
Links an entry to the structure that declares it. The structure is entered if it was not
met yet, and named after the declaration in any case.
-/
def linkStructure (h : TypeHandle) (declaration : Declaration) (atlas : Atlas) : Atlas :=
  if declaration.kind.isStructure then
    let (s, _, atlas) := atlas.enterStructure declaration.qualifiedName
    let atlas := atlas.modifyStructure s (·.applyDeclaration declaration)
    atlas.modifyType h fun e => { e with kind := .struct, baseStructure := s }
  else atlas

/-- An entry that is complete. -/
def complete (e : TypeEntry) : TypeEntry := { e with state := .resolved }

/-- What a rule does to an entry at every use, whether this use created it or not. -/
def atEveryUse (rule : TypeRule) (h : TypeHandle) (atlas : Atlas) : Atlas :=
  match rule with
  | .enumeration => atlas.modifyType h fun e => { e with kind := .unhandled }
  | _ => atlas

/-! ## Entering -/

/--
Enters a use of a type and what lies below it: the handle of its entry and the atlas with
it. `none` when the fuel runs out.
-/
def resolve (rules : SurveyRules) (src : σ) :
    Nat → DeclaredType → Atlas → Option (TypeHandle × Atlas)
  | 0, _, _ => none
  | fuel + 1, t, atlas =>
    match rules.types.handler? t.kind with
    | none => some (.null, atlas)
    | some rule =>
      let form := canonical rules src t
      let (h, created, atlas) := atlas.enterType form.identifier
      if created then
        let atlas := atlas.modifyType h (openLayer t.kind form (isConst src form))
        match below? rule src form with
        | some target =>
          (resolve rules src fuel target atlas).map fun (base, atlas) =>
            (h, atEveryUse rule h ((linkBase h base atlas).modifyType h complete))
        | none =>
          let atlas :=
            if rule = .record then linkStructure h (typeDeclaration src form) atlas
            else atlas
          some (h, atEveryUse rule h (atlas.modifyType h complete))
      else some (h, atEveryUse rule h atlas)

/-- More fuel keeps a result. -/
theorem resolve_fuel_succ {rules : SurveyRules} {src : σ} {fuel : Nat} {t : DeclaredType}
    {atlas : Atlas} {r : TypeHandle × Atlas} (h : resolve rules src fuel t atlas = some r) :
    resolve rules src (fuel + 1) t atlas = some r := by
  induction fuel generalizing t atlas r with
  | zero => simp [resolve] at h
  | succ fuel ih =>
    rw [resolve] at h ⊢
    cases hr : rules.types.handler? t.kind with
    | none => simpa [hr] using h
    | some rule =>
      simp only [hr] at h ⊢
      split at h
      · rename_i hc
        rw [if_pos hc]
        split at h
        · rename_i target hb
          obtain ⟨p, hp, rfl⟩ := Option.map_eq_some_iff.1 h
          simp only [ih hp, Option.map_some]
        · rename_i hb
          simpa only [hb] using h
      · rename_i hc
        rw [if_neg hc]
        exact h

end DeclAtlas.Survey
