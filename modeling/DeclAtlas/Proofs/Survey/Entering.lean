import DeclAtlas.Proofs.Atlas
import DeclAtlas.Survey.Resolve

/-!
# Entering as a relation

`resolve` spends one unit of fuel on each level of entering. `Enters` is the same process
without fuel: one rule for a use whose name is known, one for a use with nothing below it,
and one for a use that leads on to another. A derivation carries the calls it makes, from
the outermost in, so their number is what fuel has to pay for.

All rules but the last leave the atlas to be described by single steps on one entry. The
proofs about entering go by induction on a derivation and never open `resolve` again.

## Main results

* `resolve_eq_some_iff`: `resolve` yields a result exactly when there is a derivation that
  makes no more calls than there is fuel.
-/

universe u

namespace DeclAtlas.Survey

open DeclarationSource

variable {σ : Type u} [DeclarationSource σ] {o : SurveyOptions} {src : σ}

/-! ## The usual rules for types -/

/-- The rule that goes with a kind of types in the usual table. -/
def ruleOf : TypeKind → TypeRule
  | .pointer | .lValueRef | .rValueRef | .constantArray | .incompleteArray => .element
  | .struct => .record
  | .enum => .enumeration
  | .typedef => .typeAlias
  | _ => .plain

theorem handler?_standard (o : SurveyOptions) (k : TypeKind) :
    (SurveyRules.standard o).types.handler? k = some (ruleOf k) := by
  cases k <;> rfl

/-- The canonical form of a use under the usual rules. -/
def formOf (o : SurveyOptions) (src : σ) (t : DeclaredType) : DeclaredType :=
  canonical (.standard o) src t

/-- The name that a use is entered under. -/
def keyOf (o : SurveyOptions) (src : σ) (t : DeclaredType) : String :=
  (formOf o src t).identifier

/-- The use that the use `t` leads on to, if it makes an entry. -/
def targetOf? (o : SurveyOptions) (src : σ) (t : DeclaredType) : Option DeclaredType :=
  below? (ruleOf t.kind) src (formOf o src t)

/-- What is kept by every step is kept by following aliases. -/
theorem followAliases_induction {step : DeclaredType → DeclaredType} {P : DeclaredType → Prop}
    {t : DeclaredType} (hstep : ∀ t, P t → P (step t)) (ht : P t) (bound : Nat) :
    P (followAliases step bound t) := by
  induction bound generalizing t with
  | zero => exact ht
  | succ bound ih =>
      rw [followAliases]
      split
      · exact ht
      · dsimp only
        split
        · exact ht
        · exact ih (hstep t ht)

/-- A use leads on to what lies below its layer, or to what its alias stands for. -/
theorem targetOf?_eq_some_iff {t u : DeclaredType} : targetOf? o src t = some u ↔
    (ruleOf t.kind = .element ∧ element src (formOf o src t) = u ∨
      ruleOf t.kind = .typeAlias ∧ stripAlias src (formOf o src t) = u) ∧
      u ≠ formOf o src t ∧ u.identifier ≠ "" := by
  have hmeets : (decide (u ≠ formOf o src t) && decide (u.identifier ≠ "")) = true ↔
      u ≠ formOf o src t ∧ u.identifier ≠ "" := by
    rw [Bool.and_eq_true, decide_eq_true_eq, decide_eq_true_eq]
  unfold targetOf? below?
  cases ruleOf t.kind with
  | element | typeAlias =>
      rw [Option.filter_eq_some_iff, hmeets]
      simp
  | plain | record | enumeration => simp

/-! ## The steps of entering -/

/-- The handle of the entry of a use, made or found. -/
def entryOf (o : SurveyOptions) (src : σ) (t : DeclaredType) (a : Atlas) : TypeHandle :=
  (a.enterType (keyOf o src t)).1

/-- The atlas with a new entry for a use, of which its own layer is known. -/
def openEntry (o : SurveyOptions) (src : σ) (t : DeclaredType) (a : Atlas) : Atlas :=
  (a.enterType (keyOf o src t)).2.2.modifyType (entryOf o src t a)
    (openLayer t.kind (formOf o src t) (isConst src (formOf o src t)))

/-- The atlas in which the entry of a use of a record is linked to its structure. -/
def linkRecord (o : SurveyOptions) (src : σ) (t : DeclaredType) (h : TypeHandle)
    (a : Atlas) : Atlas :=
  if ruleOf t.kind = .record then linkStructure h (typeDeclaration src (formOf o src t)) a
  else a

/-- The atlas in which the entry of a use is complete. -/
def closeEntry (t : DeclaredType) (h : TypeHandle) (a : Atlas) : Atlas :=
  atEveryUse (ruleOf t.kind) h (a.modifyType h complete)

/-- What one call of `resolve` does, said with the steps above. -/
theorem resolve_succ (fuel : Nat) (t : DeclaredType) (a : Atlas) :
    resolve (.standard o) src (fuel + 1) t a =
      if keyOf o src t ∈ a.types.keys then
        some (a.findType (keyOf o src t),
          atEveryUse (ruleOf t.kind) (a.findType (keyOf o src t)) a)
      else
        match targetOf? o src t with
        | some target =>
          (resolve (.standard o) src fuel target (openEntry o src t a)).map fun p =>
            (entryOf o src t a, closeEntry t (entryOf o src t a)
              (linkBase (entryOf o src t a) p.1 p.2))
        | none =>
          some (entryOf o src t a, closeEntry t (entryOf o src t a)
            (linkRecord o src t (entryOf o src t a) (openEntry o src t a))) := by
  rw [resolve, handler?_standard]
  by_cases hk : keyOf o src t ∈ a.types.keys
  · have henter : a.enterType (canonical (.standard o) src t).identifier =
        (a.findType (keyOf o src t), false, a) := Atlas.enterType_of_mem hk
    rw [if_pos hk]
    simp only [henter, Bool.false_eq_true, if_false]
  · have hnull : (a.findType (keyOf o src t)).isNull = true :=
      (Registry.isNull_find_iff ..).2 hk
    have hcreated : (a.enterType (canonical (.standard o) src t).identifier).2.1 = true :=
      (Atlas.created_enterType a _).trans hnull
    rw [if_neg hk]
    simp only [hcreated, if_true]
    rfl

/-! ## Derivations -/

/-- One call on the way: the use it was made for, and whether it made an entry. -/
structure Call where
  type : DeclaredType
  isNew : Bool
deriving DecidableEq, Inhabited

/-- The uses among some calls for which entries were made, in the order of the entries. -/
def newUses (calls : List Call) : List DeclaredType :=
  (calls.filter (·.isNew)).map (·.type)

@[simp] theorem newUses_old (t : DeclaredType) : newUses [⟨t, false⟩] = [] := rfl

@[simp] theorem newUses_cons_new (t : DeclaredType) (calls : List Call) :
    newUses (⟨t, true⟩ :: calls) = t :: newUses calls := rfl

/-- `Enters o src t a calls h a'`: entering the use `t` in `a` makes `calls`, yields the
handle `h` and leads to `a'`. -/
inductive Enters (o : SurveyOptions) (src : σ) :
    DeclaredType → Atlas → List Call → TypeHandle → Atlas → Prop where
  /-- The name of the use is known. -/
  | known {t : DeclaredType} {a : Atlas} (hk : keyOf o src t ∈ a.types.keys) :
      Enters o src t a [⟨t, false⟩] (a.findType (keyOf o src t))
        (atEveryUse (ruleOf t.kind) (a.findType (keyOf o src t)) a)
  /-- The use makes an entry with nothing below it. -/
  | flat {t : DeclaredType} {a : Atlas} (hk : keyOf o src t ∉ a.types.keys)
      (ht : targetOf? o src t = none) :
      Enters o src t a [⟨t, true⟩] (entryOf o src t a)
        (closeEntry t (entryOf o src t a)
          (linkRecord o src t (entryOf o src t a) (openEntry o src t a)))
  /-- The use makes an entry and leads on to another. -/
  | layered {t target : DeclaredType} {a a' : Atlas} {calls : List Call} {base : TypeHandle}
      (hk : keyOf o src t ∉ a.types.keys) (ht : targetOf? o src t = some target)
      (hb : Enters o src target (openEntry o src t a) calls base a') :
      Enters o src t a (⟨t, true⟩ :: calls) (entryOf o src t a)
        (closeEntry t (entryOf o src t a) (linkBase (entryOf o src t a) base a'))

private theorem enters_of_resolve {fuel : Nat} {t : DeclaredType} {a : Atlas}
    {r : TypeHandle × Atlas} (h : resolve (.standard o) src fuel t a = some r) :
    ∃ calls, Enters o src t a calls r.1 r.2 ∧ calls.length ≤ fuel := by
  induction fuel generalizing t a r with
  | zero => exact nomatch h
  | succ fuel ih =>
      rw [resolve_succ] at h
      by_cases hk : keyOf o src t ∈ a.types.keys
      · rw [if_pos hk] at h
        cases Option.some.inj h
        exact ⟨_, .known hk, by simp⟩
      · rw [if_neg hk] at h
        cases ht : targetOf? o src t with
        | none =>
            rw [ht] at h
            cases Option.some.inj h
            exact ⟨_, .flat hk ht, by simp⟩
        | some target =>
            rw [ht] at h
            obtain ⟨p, hp, rfl⟩ := Option.map_eq_some_iff.1 h
            obtain ⟨calls, hb, hlen⟩ := ih hp
            exact ⟨_, .layered hk ht hb, by simpa using hlen⟩

private theorem Enters.resolve {t : DeclaredType} {a a' : Atlas} {calls : List Call}
    {h : TypeHandle} (he : Enters o src t a calls h a') :
    ∀ fuel, calls.length ≤ fuel →
      resolve (.standard o) src fuel t a = some (h, a') := by
  induction he with
  | known hk =>
      intro fuel hf
      obtain ⟨fuel, rfl⟩ := Nat.exists_eq_succ_of_ne_zero (Nat.ne_of_gt hf)
      rw [resolve_succ, if_pos hk]
  | flat hk ht =>
      intro fuel hf
      obtain ⟨fuel, rfl⟩ := Nat.exists_eq_succ_of_ne_zero (Nat.ne_of_gt hf)
      rw [resolve_succ, if_neg hk, ht]
  | layered hk ht _ ih =>
      intro fuel hf
      rw [List.length_cons] at hf
      obtain ⟨fuel, rfl⟩ := Nat.exists_eq_add_of_le' (show 1 ≤ fuel by omega)
      rw [resolve_succ, if_neg hk, ht]
      simp only [ih fuel (by omega), Option.map_some]

/-- `resolve` yields a result exactly when there is a derivation of it that makes no more
calls than there is fuel. -/
theorem resolve_eq_some_iff {fuel : Nat} {t : DeclaredType} {a a' : Atlas}
    {h : TypeHandle} :
    resolve (.standard o) src fuel t a = some (h, a') ↔
      ∃ calls, Enters o src t a calls h a' ∧ calls.length ≤ fuel :=
  ⟨enters_of_resolve, fun ⟨_, he, hlen⟩ => he.resolve fuel hlen⟩

end DeclAtlas.Survey
