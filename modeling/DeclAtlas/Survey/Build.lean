import DeclAtlas.Survey.Visit

/-!
# Building an atlas

A survey reads a source to its end and visits every declaration on the way. It ends at the
first empty declaration; with enough fuel for the stream and for every type, that is where
the source ends.

## Main results

* `build_fuel_succ`: more fuel keeps a result.
-/

universe u

namespace DeclAtlas.Survey

open DeclarationSource

variable {σ : Type u} [DeclarationSource σ]

/--
Visits the declarations that are left in a source: the atlas with them, and the source
where it ended. `none` when the fuel runs out.
-/
def drain (rules : SurveyRules) : Nat → σ → Atlas → Option (Atlas × σ)
  | 0, _, _ => none
  | fuel + 1, src, atlas =>
    let read := next src
    if read.1.isEmpty then some (atlas, read.2)
    else (visit rules read.2 fuel read.1 atlas).bind (drain rules fuel read.2)

/-- The atlas of what is left in a source, and the source where it ended. -/
def build (rules : SurveyRules) (fuel : Nat) (src : σ) (id : ArenaId := ⟨1⟩) :
    Option (Atlas × σ) :=
  drain rules fuel src (Atlas.empty id)

theorem drain_fuel_succ {rules : SurveyRules} {fuel : Nat} {src : σ} {atlas : Atlas}
    {r : Atlas × σ} (h : drain rules fuel src atlas = some r) :
    drain rules (fuel + 1) src atlas = some r := by
  induction fuel generalizing src atlas with
  | zero => simp [drain] at h
  | succ fuel ih =>
    rw [drain] at h ⊢
    split at h
    · rename_i he
      rw [if_pos he]
      exact h
    · rename_i he
      rw [if_neg he]
      obtain ⟨a, ha, hr⟩ := Option.bind_eq_some_iff.1 h
      rw [visit_fuel_succ ha]
      exact ih hr

/-- More fuel keeps a result. -/
theorem build_fuel_succ {rules : SurveyRules} {fuel : Nat} {src : σ} {id : ArenaId}
    {r : Atlas × σ} (h : build rules fuel src id = some r) :
    build rules (fuel + 1) src id = some r :=
  drain_fuel_succ h

end DeclAtlas.Survey
