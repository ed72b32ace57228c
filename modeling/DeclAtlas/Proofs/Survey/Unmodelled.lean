import DeclAtlas.Proofs.Source.Selection
import DeclAtlas.Proofs.Survey.Relocation
import DeclAtlas.Proofs.Survey.Running
import Mathlib.Logic.Equiv.Basic

/-!
# Declarations that leave no trace

A survey depends on its source in two ways only: on what is known of types, and on the items
that the source delivers. So two sources that know the same of types and deliver the same items
lead to the same atlas, and items at which a survey does nothing can be missing from one of
them. Fewer items need no more fuel.

Functions, namespaces and what is not supported never do anything, nor does a parameter outside
a method of a structure; without methods, no method and no parameter does.

## Main results

* `resolve_congr`, `visit_congr`: what entering and visiting depend on.
* `drain_filter`: a survey of a source from which idle items are missing.
* `build_withoutUnmodelled`: a script without its idle entries.
-/

universe u v

namespace DeclAtlas.Survey

open DeclarationSource

variable {σ : Type u} {τ : Type v} [DeclarationSource σ] [DeclarationSource τ]
  {rules : SurveyRules} {o : SurveyOptions} {src : σ} {src' : τ}

/-! ## What a survey depends on -/

theorem canonical_congr (h : SameTypes src src') (t : DeclaredType) :
    canonical rules src' t = canonical rules src t := by
  unfold canonical
  rw [h.stripAlias]

theorem below?_congr (h : SameTypes src src') (rule : TypeRule) (t : DeclaredType) :
    below? rule src' t = below? rule src t := by
  unfold below?
  rw [h.stripAlias, h.element]

/-- Entering depends on what is known of types. -/
theorem resolve_congr (h : SameTypes src src') (fuel : Nat) (t : DeclaredType) (a : Atlas) :
    resolve rules src' fuel t a = resolve rules src fuel t a := by
  induction fuel generalizing t a with
  | zero => rfl
  | succ fuel ih =>
      rw [resolve, resolve]
      simp only [canonical_congr h, below?_congr h, h.isConst, h.typeDeclaration, ih]

/-- Visiting depends on the item that is visited as well. -/
theorem visit_congr (h : SameTypes src src') {d : Declaration}
    (hd : itemOf src' d = itemOf src d) (fuel : Nat) (a : Atlas) :
    visit rules src' fuel d a = visit rules src fuel d a := by
  obtain ⟨-, hancestors, htype, hvisibility, hflags⟩ := Item.mk.inj hd
  have henclosing (f : Structure → Structure) (b : Atlas) :
      modifyEnclosing src' f b = modifyEnclosing src f b := by
    unfold modifyEnclosing enclosingStructure? enclosing?
    rw [hancestors]
  unfold visit
  cases rules.declarations.handler? d.kind with
  | none => rfl
  | some rule =>
      cases rule with
      | ignore => rfl
      | enterStructure =>
          simp only [applyRule, visitStructure, pathOf, hancestors, hvisibility]
      | addParent => simp only [applyRule, visitBase, henclosing]
      | addField =>
          simp only [applyRule, visitField, resolve_congr h, htype, hvisibility, henclosing]
      | addMethod =>
          have howner : enclosing? src' = enclosing? src := congrArg List.getLast? hancestors
          simp only [applyRule, visitMethod, howner, resolve_congr h, htype, hvisibility, hflags,
            henclosing]
      | addParameter =>
          simp only [applyRule, visitParameter, resolve_congr h, hancestors, htype]

/-! ## Items without effect -/

/-- Is a declaration inside a method that is directly inside a structure? -/
def insideMethod (ancestors : List Declaration) : Bool :=
  match ancestors.reverse with
  | method :: owner :: _ => method.kind = .method && owner.kind.isStructure
  | _ => false

/-- The declarations that a survey may take notice of, with methods or without. -/
def modelled (methods : Bool) : Choice := fun kind ancestors =>
  match kind with
  | .structDecl | .classDecl | .baseSpecifier | .field => true
  | .method => methods
  | .parameter => methods && insideMethod ancestors
  | .function | .namespaceDecl | .unsupported => false

/-- What is not modelled is idle. -/
theorem isIdle_of_not_modelled {d : Declaration} (a : Atlas)
    (h : modelled o.modelMethods d.kind (ancestors src) = false) : IsIdle o src d a := by
  unfold IsIdle
  cases hk : d.kind <;> rw [hk] at h
  case structDecl | classDecl | baseSpecifier | field => exact nomatch h
  case method => rw [entersMethod, show o.modelMethods = false from h, Bool.false_and]
  case parameter =>
    have hcond : (o.modelMethods && insideMethod (ancestors src)) = false := h
    show parameterOwner? o src a = none
    unfold insideMethod at hcond
    unfold parameterOwner?
    rcases hreverse : (ancestors src).reverse with _ | ⟨method, _ | ⟨owner, rest⟩⟩
    · rfl
    · rfl
    · rw [hreverse, ← Bool.and_assoc] at hcond
      simp only [hcond, Bool.false_and, Bool.false_eq_true, if_false]
  case function | namespaceDecl | unsupported => trivial

/-- Visiting a declaration that is not modelled changes nothing. -/
theorem visit_of_not_modelled {d : Declaration} (fuel : Nat) (a : Atlas)
    (h : modelled o.modelMethods d.kind (ancestors src) = false) :
    visit (.standard o) src fuel d a = some a :=
  visit_eq_some_iff.2 ⟨[], .idle (isIdle_of_not_modelled a h), by simp⟩

/-- A survey does not notice that items are missing which are not modelled. -/
theorem drain_filter [SteadyTypes σ] [SteadyTypes τ] {keep : Choice} {items : List Item}
    {fuel : Nat} {a b : Atlas} {send : σ} (h : SameTypes src src') (hd : Delivers src items)
    (hd' : Delivers src' (items.filter keep.item))
    (hkeep : ∀ i ∈ items, keep.item i = false →
      modelled o.modelMethods i.declaration.kind i.ancestors = false)
    (hdrain : drain (.standard o) fuel src a = some (b, send)) :
    ∃ send', drain (.standard o) fuel src' a = some (b, send') := by
  induction fuel generalizing src src' items a with
  | zero => exact nomatch hdrain
  | succ fuel ih =>
      cases hd with
      | done hend =>
          obtain ⟨hend'⟩ := hd'
          rw [drain, if_pos hend] at hdrain
          obtain ⟨rfl, -⟩ := Prod.mk.inj (Option.some.inj hdrain)
          exact ⟨_, by rw [drain, if_pos hend']⟩
      | @step _ i items hread hi hr =>
          rw [drain] at hdrain
          simp only [hread, Bool.false_eq_true, if_false] at hdrain
          obtain ⟨c, hc, hdrain⟩ := Option.bind_eq_some_iff.1 hdrain
          obtain ⟨hidle, hrest⟩ := List.forall_mem_cons.1 hkeep
          cases hki : keep.item i with
          | false =>
              -- Only one of the sources has the item, and nothing comes of it.
              have hunmodelled :
                  modelled o.modelMethods (next src).1.kind (ancestors (next src).2) = false := by
                have hitem := hidle hki
                rwa [← hi] at hitem
              rw [visit_of_not_modelled fuel a hunmodelled] at hc
              obtain rfl := Option.some.inj hc
              rw [List.filter_cons_of_neg (by simp [hki])] at hd'
              obtain ⟨send', hsame⟩ := ih h.next_left hr hd' hrest hdrain
              exact ⟨send', drain_fuel_succ hsame⟩
          | true =>
              rw [List.filter_cons_of_pos hki] at hd'
              cases hd' with
              | step hread' hi' hr' =>
                  have hd : (next src').1 = (next src).1 :=
                    (congrArg Item.declaration hi').trans (congrArg Item.declaration hi).symm
                  have hitem : itemOf (next src').2 (next src).1 =
                      itemOf (next src).2 (next src).1 := by
                    rw [hi, ← hi', hd]
                  obtain ⟨send', hsame⟩ := ih h.next hr hr' hrest hdrain
                  refine ⟨send', ?_⟩
                  rw [drain]
                  simp only [hread', Bool.false_eq_true, if_false]
                  rw [hd, visit_congr h.next hitem, hc]
                  exact hsame

/-- The snapshots of two sources, one of which misses items that are not modelled, are the same
wherever their atlases are. -/
theorem build_filter [SteadyTypes σ] [SteadyTypes τ] {keep : Choice} {items : List Item}
    {fuel : Nat} {id : ArenaId} {a : Atlas} {send : σ} (h : SameTypes src src')
    (hd : Delivers src items) (hd' : Delivers src' (items.filter keep.item))
    (hkeep : ∀ i ∈ items, keep.item i = false →
      modelled o.modelMethods i.declaration.kind i.ancestors = false)
    (hb : build (.standard o) fuel src id = some (a, send)) (id' : ArenaId) (source : String) :
    ∃ a' send', build (.standard o) fuel src' id' = some (a', send') ∧
      (Snapshot.ofAtlas source a').byPosition = (Snapshot.ofAtlas source a).byPosition ∧
      (Snapshot.ofAtlas source a').toJson = (Snapshot.ofAtlas source a).toJson := by
  obtain ⟨send', hsame⟩ : ∃ send', build (.standard o) fuel src' id = some (a, send') :=
    drain_filter h hd hd' hkeep hb
  have hmoved : build (.standard o) fuel src' (Equiv.swap id id' id) = _ :=
    build_relocate (Equiv.swap id id').injective fuel src' id
  rw [Equiv.swap_apply_left, hsame] at hmoved
  refine ⟨_, _, hmoved, ?_, ?_⟩
  · rw [Snapshot.ofAtlas_relocate, Snapshot.byPosition_relocate]
  · rw [Snapshot.ofAtlas_relocate, Snapshot.toJson_relocate]

/-! ## Scripts -/

/-- Every survey of `s` that ends has the snapshot of a survey of `s'`, handles compared by
their positions. -/
def SameSnapshots (o : SurveyOptions) (s s' : Script) : Prop :=
  ∀ (fuel : Nat) (id : ArenaId) (a : Atlas) (send : Script),
    build (.standard o) fuel s id = some (a, send) →
    ∀ (id' : ArenaId) (source : String), ∃ a' send',
      build (.standard o) fuel s' id' = some (a', send') ∧
        (Snapshot.ofAtlas source a').byPosition = (Snapshot.ofAtlas source a).byPosition ∧
        (Snapshot.ofAtlas source a').toJson = (Snapshot.ofAtlas source a).toJson

theorem modelled_of_isStructure (methods : Bool) (kind : DeclarationKind)
    (ancestors : List Declaration) (hk : kind.isStructure = true) :
    modelled methods kind ancestors = true := by
  rcases eq_of_isStructure hk with rfl | rfl
  · rfl
  · rfl

/-- Whatever a survey takes no notice of can be deleted from a script. Without methods it is
told by the kind of a declaration alone, and so no declaration that is deleted equals one that
stays. With methods two parameters could be equal and stand in different places, where there are
no lines left to tell them apart; a script of that length is settled before. -/
theorem build_withoutUnmodelled (o : SurveyOptions) (s : Script) (hs : s.Recorded) :
    (o.modelMethods = false → SameSnapshots o s (s.keeping (modelled false))) ∧
      (o.modelMethods = true →
        (s.entries.length ≤ Script.maxLine → SameSnapshots o s (s.keeping (modelled true))) ∧
          SameSnapshots o s (s.settled.keeping (modelled true))) := by
  have hne : ∀ e ∈ s.entries, e.declaration.isEmpty = false :=
    fun e he => hs.isEmpty_declaration he
  have hdelivers := Script.delivers_answers hne
  have hsettled : SameTypes s (s.settled.keeping (modelled true)) :=
    s.sameTypes_settled.trans (s.settled.sameTypes_keeping (modelled_of_isStructure true))
  have hlong (hon : o.modelMethods = true) :
      SameSnapshots o s (s.settled.keeping (modelled true)) := by
    intro fuel id a send hb id' source
    refine build_filter hsettled hdelivers (Script.delivers_settled hne) ?_ hb id' source
    rw [hon]
    exact fun i _ hi => hi
  refine ⟨fun hoff => ?_, fun hon => ⟨fun hl => ?_, hlong hon⟩⟩
  · intro fuel id a send hb id' source
    have hsame : ∀ e ∈ s.entries, ∀ e' ∈ s.entries, e.declaration = e'.declaration →
        (modelled false).entry e = (modelled false).entry e' := by
      intro e _ e' _ hd
      unfold Choice.entry modelled
      rw [hd]
      cases e'.declaration.kind <;> rfl
    refine build_filter (s.sameTypes_keeping (modelled_of_isStructure false)) hdelivers
      (Script.delivers_keeping hne hsame) ?_ hb id' source
    rw [hoff]
    exact fun i _ hi => hi
  · have hlong := hlong hon
    rwa [hs.settled_eq hl] at hlong

/-! A script with something of every kind. -/

/-- A structure in a namespace, with a field and a method, and a function beside it. -/
def everyKind : Script :=
  let inside := ((default : Script).nest .namespaceDecl "N").nest .structDecl "N::S"
  let field := (inside.leaf .field "N::S::a").withType { identifier := "int", kind := .int }
  let method := (field.nest .method "N::S::f").withType { identifier := "void", kind := .void }
  let parameter := (method.leaf .parameter "N::S::f::p").withType
    { identifier := "long", kind := .long }
  let function := (parameter.close.close.nest .function "N::g").withType
    { identifier := "char", kind := .char }
  (function.leaf .parameter "N::g::q").withType { identifier := "bool", kind := .bool }

theorem recorded_everyKind : everyKind.Recorded := by
  have hinside := (Script.Recorded.new.nest .namespaceDecl "N").nest .structDecl "N::S"
  have hfield := (hinside.leaf .field "N::S::a").withType { identifier := "int", kind := .int }
  have hmethod := (hfield.nest .method "N::S::f").withType { identifier := "void", kind := .void }
  have hparameter := (hmethod.leaf .parameter "N::S::f::p").withType
    { identifier := "long", kind := .long }
  have hfunction := (hparameter.close.close.nest .function "N::g").withType
    { identifier := "char", kind := .char }
  exact (hfunction.leaf .parameter "N::g::q").withType { identifier := "bool", kind := .bool }

theorem build_withoutUnmodelled_everyKind :
    everyKind.entries.length = 7 ∧
    (∃ a send, build (.standard {}) 9 everyKind ⟨1⟩ = some (a, send) ∧ a.types.keys = ["int"] ∧
      (everyKind.keeping (modelled false)).entries.length = 2 ∧
      ∃ a' send', build (.standard {}) 9 (everyKind.keeping (modelled false)) ⟨7⟩ =
          some (a', send') ∧
        (Snapshot.ofAtlas "kinds.h" a').byPosition =
          (Snapshot.ofAtlas "kinds.h" a).byPosition) ∧
    ∃ a send, build (.standard { modelMethods := true }) 9 everyKind ⟨1⟩ = some (a, send) ∧
      a.types.keys = ["int", "void", "long"] ∧ everyKind.entries.length ≤ Script.maxLine ∧
      (everyKind.keeping (modelled true)).entries.length = 4 ∧
      ∃ a' send', build (.standard { modelMethods := true }) 9
            (everyKind.keeping (modelled true)) ⟨7⟩ = some (a', send') ∧
          (Snapshot.ofAtlas "kinds.h" a').byPosition =
            (Snapshot.ofAtlas "kinds.h" a).byPosition := by
  have hl : everyKind.entries.length ≤ Script.maxLine := by decide
  refine ⟨rfl, ?_, ?_⟩
  · have hb : build (.standard {}) 9 everyKind ⟨1⟩ = some (_, _) := rfl
    obtain ⟨a', send', hb', hsame, -⟩ := (build_withoutUnmodelled {} everyKind
      recorded_everyKind).1 rfl 9 ⟨1⟩ _ _ hb ⟨7⟩ "kinds.h"
    exact ⟨_, _, hb, rfl, rfl, a', send', hb', hsame⟩
  · have hb : build (.standard { modelMethods := true }) 9 everyKind ⟨1⟩ = some (_, _) := rfl
    obtain ⟨a', send', hb', hsame, -⟩ := ((build_withoutUnmodelled { modelMethods := true }
      everyKind recorded_everyKind).2 rfl).1 hl 9 ⟨1⟩ _ _ hb ⟨7⟩ "kinds.h"
    exact ⟨_, _, hb, rfl, hl, rfl, a', send', hb', hsame⟩

end DeclAtlas.Survey
