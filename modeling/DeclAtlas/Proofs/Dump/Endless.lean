import DeclAtlas.Proofs.Dump.Unfolding
import DeclAtlas.Proofs.Survey.Running
import Mathlib.Order.Monotone.Basic

/-!
# Surveys without end

A level of entering ends if its name is known. Where every level leads on to a longer name
than its own, no name is ever met again, so no derivation says where entering ends, and with
any amount of fuel a survey runs out of it.

In a dump this takes one alias for pointers to itself, such as an alias in a namespace that is
spelled like the record outside that it points to. Its name then refers to the alias and not
to the record. Entering takes one pointer off and the next canonical form puts several on.

## Main results

* `Survey.not_enters_of_growing`, `Survey.not_runs_of_growing`: longer and longer names have
  no end.
* `SelfPointer.name_grows`, `SelfPointer.pointer_grows`: one level below an alias for pointers
  to itself.
* `build_endless`: a dump that no survey reads to its end, whatever its options.
-/

universe u

namespace DeclAtlas

open DeclarationSource

/-! ## Names that grow -/

namespace Survey

variable {σ : Type u} [DeclarationSource σ] {o : SurveyOptions} {src src' : σ}
  {P : DeclaredType → Prop} {t : DeclaredType} {a a' : Atlas}

/-- Every type of a family leads on to one of the family with a longer name. -/
def Growing (o : SurveyOptions) (src : σ) (P : DeclaredType → Prop) : Prop :=
  ∀ t, P t → ∃ u, targetOf? o src t = some u ∧ P u ∧
    (keyOf o src t).length < (keyOf o src u).length

/-- No derivation enters a type of a growing family where all names are shorter: the level
that ends it would have to know its name. -/
theorem not_enters_of_growing {calls : List Call} {h : TypeHandle} (hg : Growing o src P)
    (ht : P t) (ha : ∀ k ∈ a.types.keys, k.length < (keyOf o src t).length) :
    ¬Enters o src t a calls h a' := by
  intro he
  induction he with
  | known hk => exact absurd (ha _ hk) (Nat.lt_irrefl _)
  | flat hk hnone =>
      obtain ⟨u, hu, -⟩ := hg _ ht
      rw [hnone] at hu
      cases hu
  | layered hk htarget hb ih =>
      obtain ⟨u, hu, hP, hlt⟩ := hg _ ht
      obtain rfl := Option.some.inj (htarget.symm.trans hu)
      refine ih hP fun k hmem => ?_
      rw [keys_openEntry hk] at hmem
      rcases List.mem_append.1 hmem with hmem | hmem
      · exact (ha k hmem).trans hlt
      · rwa [List.mem_singleton.1 hmem]

/-- Does visiting a declaration of this kind never enter a type? -/
def isUntyped : DeclarationKind → Bool
  | .field | .method | .parameter => false
  | _ => true

theorem types_of_isUntyped {d : Declaration} {uses : List Use} (hk : isUntyped d.kind = true)
    (hv : Visits o src d a uses a') : a'.types = a.types := by
  rcases hv.types with ⟨-, -, ht⟩ | ⟨_, _, _, rfl, -, -⟩
  · exact ht
  · cases hv with
    | field hd => rw [hd] at hk; cases hk
    | method hd => rw [hd] at hk; cases hk
    | parameter hd => rw [hd] at hk; cases hk

/-- Visiting a field enters its type. -/
theorem enters_of_field {d : Declaration} {uses : List Use} (hk : d.kind = .field)
    (hv : Visits o src d a uses a') :
    ∃ calls h b, Enters o src (declaredType src d) a calls h b := by
  cases hv with
  | field _ he => exact ⟨_, _, _, he⟩
  | idle hidle => simp [IsIdle, hk] at hidle
  | record hd => rw [hk] at hd; cases hd
  | base hd => rw [hk] at hd; cases hd
  | method hd => rw [hk] at hd; cases hd
  | parameter hd => rw [hk] at hd; cases hd

/-- A source whose first typed declaration is a field of a growing family has no end. -/
theorem not_runs_of_growing [SteadyTypes σ] {items : List Item} {i : Item} {uses : List Use}
    (hd : Delivers src items) (hg : Growing o src P)
    (hfirst : items.find? (fun i => !isUntyped i.declaration.kind) = some i)
    (hk : i.declaration.kind = .field) (hi : P i.type) (ha : a.types.keys = []) :
    ¬Runs o src a uses a' src' := by
  intro hr
  induction hd generalizing a uses with
  | done hend => cases hfirst
  | @step src j items hread hitem hrest ih =>
      have hg' : Growing o (next src).2 P := by
        intro t ht
        rw [keyOf_next, targetOf?_next]
        exact hg t ht
      cases hr with
      | done hend => exact absurd (hread.symm.trans hend) (by simp)
      | step _ hv hr =>
          have hj : j.declaration = (next src).1 := by rw [← hitem]; rfl
          cases hu : isUntyped (next src).1.kind with
          | true =>
              rw [List.find?_cons_of_neg (by rw [hj, hu]; simp)] at hfirst
              refine ih hg' hfirst ?_ hr
              rw [types_of_isUntyped hu hv, ha]
          | false =>
              rw [List.find?_cons_of_pos (by rw [hj, hu]; simp)] at hfirst
              obtain rfl := Option.some.inj hfirst
              have hkind : (next src).1.kind = .field := hj ▸ hk
              have htype : P (declaredType (next src).2 (next src).1) := by
                rw [← hitem] at hi
                exact hi
              obtain ⟨calls, h, b, he⟩ := enters_of_field hkind hv
              refine not_enters_of_growing hg' htype ?_ he
              rw [ha]
              exact fun k hmem => absurd hmem (by simp)

end Survey

/-! ## An alias for pointers to itself -/

namespace Dump.Source

open Survey

variable {names : NameTable} {s : Source} {o : SurveyOptions} {a b : String} {k m n : Nat}
  {e : StreamEntry}

/-- A name with `n` pointers around it. -/
def stars (a : String) : Nat → Shape
  | 0 => .named a false
  | n + 1 => .pointer (stars a n) false

theorem legible_stars (h : Shape.IsName a) (n : Nat) : (stars a n).Legible := by
  induction n with
  | zero => exact h
  | succ n ih => exact ih

theorem named?_stars (a : String) (n : Nat) : (stars a n).named? = some a := by
  induction n with
  | zero => rfl
  | succ n ih => exact ih

theorem dimensions_stars (a : String) (n : Nat) : (stars a n).dimensions = n := by
  induction n with
  | zero => rfl
  | succ n ih => exact congrArg (· + 1) ih

theorem collapsed_stars (a : String) (n : Nat) : (stars a n).Collapsed := by
  induction n with
  | zero => trivial
  | succ n ih => exact ih

theorem faithful_stars (a : String) (n : Nat) : (stars a n).Faithful := by
  refine ⟨collapsed_stars a n, fun hn => ?_⟩
  rw [named?_stars] at hn
  cases hn

/-- Pointers around pointers. -/
theorem mapNamed_stars {f : String → Bool → Shape} (hf : f a false = stars b k) (n : Nat) :
    (stars a n).mapNamed f = stars b (n + k) := by
  induction n with
  | zero => rw [Nat.zero_add]; exact hf
  | succ n ih =>
      rw [Nat.succ_add]
      exact congrArg (Shape.pointer · false) ih

theorem withConst_stars (a : String) (n : Nat) : (stars a n).withConst false = stars a n := by
  cases n <;> rfl

theorem qualify_stars (hb : Builtin.kind? a = none) (scope : List String) (n : Nat) :
    qualify names scope (stars a n) = stars ((names.resolve? a scope).getD a) n := by
  refine mapNamed_stars (k := 0) ?_ n
  rw [hb]
  rfl

theorem substituteAlias_stars (ha : aliasTarget? names a = some (stars a k)) (n : Nat) :
    substituteAlias names (stars a n) = stars a (n + k) := by
  refine mapNamed_stars ?_ n
  simp only [ha]
  exact withConst_stars a k

theorem length_render_stars_succ (a : String) (n : Nat) :
    (stars a n).render.length < (stars a (n + 1)).render.length := by
  change (String.ofList (Shape.spell (stars a n) [])).length <
    (String.ofList (Shape.attach ['*'] (Shape.spell (stars a n) []) ++ [])).length
  rw [String.length_ofList, String.length_ofList, Shape.attach_eq_gap]
  simp only [List.append_nil, List.length_append, List.length_singleton]
  omega

/-- The more pointers, the longer the spelling. -/
theorem length_render_stars (a : String) (h : m < n) :
    (stars a m).render.length < (stars a n).render.length :=
  strictMono_nat_of_lt_succ (length_render_stars_succ a) h

theorem toDeclared_stars_ne (h : m ≠ n) :
    toDeclared names (stars a m) ≠ toDeclared names (stars a n) := by
  intro heq
  have hid : (stars a m).render = (stars a n).render := congrArg (·.identifier) heq
  rcases Nat.lt_or_gt_of_ne h with h | h
  · exact absurd (congrArg String.length hid) (Nat.ne_of_lt (length_render_stars a h))
  · exact absurd (congrArg String.length hid) (Nat.ne_of_gt (length_render_stars a h))

theorem render_stars_ne (h : 0 < n) : (stars a n).render ≠ "" := by
  intro hempty
  have hlt := length_render_stars a h
  rw [hempty] at hlt
  exact Nat.not_lt_zero _ hlt

/-! ### One level -/

/-- The name `a` stands for `k` pointers to itself. -/
structure SelfPointer (names : NameTable) (a : String) (k : Nat) : Prop where
  isName : Shape.IsName a
  notBuiltin : Builtin.kind? a = none
  target : aliasTarget? names a = some (stars a k)

/-- An alias for pointers to itself is not grounded. -/
theorem SelfPointer.not_grounded (h : SelfPointer names a k) (hk : 0 < k) :
    ¬Grounded names := by
  intro hg
  have hzero := hg a _ (.step h.target (named?_stars a k) (.refl a))
  rw [dimensions_stars] at hzero
  omega

theorem SelfPointer.namedKind (h : SelfPointer names a k) : namedKind names a = .typedef := by
  obtain ⟨d, target, scope, hget, -⟩ := exists_of_aliasTarget h.target
  rw [Source.namedKind, h.notBuiltin]
  simp only [hget]

/-- A step puts the pointers of the alias on. -/
theorem SelfPointer.stripAlias (h : SelfPointer names a k) (n : Nat) :
    stripAlias names (toDeclared names (stars a n)) =
      toDeclared names (stars a (n + k)) := by
  rw [stripAlias_of_faithful (legible_stars h.isName n) (faithful_stars a n),
    substituteAlias_stars h.target]

/-- The canonical form of a pointer has them put on as often as aliases are followed. -/
theorem SelfPointer.followAliases (h : SelfPointer names a k) (hk : 0 < k) (bound n : Nat) :
    followAliases (Source.stripAlias names) bound (toDeclared names (stars a (n + 1))) =
      toDeclared names (stars a (n + 1 + bound * k)) := by
  induction bound generalizing n with
  | zero => rw [Nat.zero_mul]; rfl
  | succ bound ih =>
      have hkind : (toDeclared names (stars a (n + 1))).kind ≠ .typedef := by
        intro hkind
        cases hkind
      rw [Survey.followAliases, if_neg hkind, h.stripAlias]
      dsimp only
      rw [if_neg (toDeclared_stars_ne (by omega)),
        show n + 1 + k = n + k + 1 by omega, ih, Nat.succ_mul]
      exact congrArg (fun m => toDeclared names (stars a m)) (by omega)

/-- Inside a pointer there is one less. -/
theorem elementType_stars (ha : Shape.IsName a) (n : Nat) :
    elementType names (toDeclared names (stars a (n + 1))) = toDeclared names (stars a n) := by
  rw [elementType, show (toDeclared names (stars a (n + 1))).identifier =
    (stars a (n + 1)).render from rfl,
    Shape.parse_render_of_faithful (legible_stars ha _) (faithful_stars a _)]
  rfl

theorem SelfPointer.formOf_pointer (h : SelfPointer s.names a k) (hk : 0 < k) (n : Nat) :
    formOf o s (toDeclared s.names (stars a (n + 1))) =
      toDeclared s.names (stars a (n + o.normalize.maxAliasDepth * k + 1)) := by
  rw [Nat.add_right_comm]
  exact h.followAliases hk _ n

theorem SelfPointer.keyOf_pointer (h : SelfPointer s.names a k) (hk : 0 < k) (n : Nat) :
    keyOf o s (toDeclared s.names (stars a (n + 1))) =
      (stars a (n + o.normalize.maxAliasDepth * k + 1)).render :=
  congrArg (·.identifier) (h.formOf_pointer hk n)

/-- The alias itself leads on to what it stands for. -/
theorem SelfPointer.name_grows (h : SelfPointer s.names a k) (hk : 0 < k) :
    targetOf? o s (toDeclared s.names (stars a 0)) = some (toDeclared s.names (stars a k)) ∧
      (keyOf o s (toDeclared s.names (stars a 0))).length <
        (keyOf o s (toDeclared s.names (stars a k))).length := by
  have hkind : (toDeclared s.names (stars a 0)).kind = .typedef := h.namedKind
  have hform : formOf o s (toDeclared s.names (stars a 0)) = toDeclared s.names (stars a 0) :=
    canonical_typedef hkind
  have hkey : keyOf o s (toDeclared s.names (stars a 0)) = (stars a 0).render :=
    congrArg (·.identifier) hform
  have hstrip := h.stripAlias 0
  rw [Nat.zero_add] at hstrip
  have htarget : targetOf? o s (toDeclared s.names (stars a 0)) =
      some (toDeclared s.names (stars a k)) :=
    targetOf?_eq_some_iff.2 ⟨.inr ⟨by rw [hkind]; rfl, by rw [hform]; exact hstrip⟩,
      by rw [hform]; exact toDeclared_stars_ne (Nat.ne_of_gt hk), render_stars_ne hk⟩
  obtain ⟨k, rfl⟩ := Nat.exists_eq_add_of_lt hk
  refine ⟨htarget, ?_⟩
  rw [hkey, Nat.zero_add, h.keyOf_pointer hk]
  exact length_render_stars a (by omega)

/-- A pointer leads on to one that has one pointer taken off and several put on. -/
theorem SelfPointer.pointer_grows (h : SelfPointer s.names a k) (hpos : 0 < k)
    (hk : 2 ≤ o.normalize.maxAliasDepth * k) (n : Nat) :
    ∃ m, targetOf? o s (toDeclared s.names (stars a (n + 1))) =
        some (toDeclared s.names (stars a (m + 1))) ∧
      (keyOf o s (toDeclared s.names (stars a (n + 1)))).length <
        (keyOf o s (toDeclared s.names (stars a (m + 1)))).length := by
  have hform := h.formOf_pointer (o := o) hpos n
  have hkey := h.keyOf_pointer (o := o) hpos
  generalize o.normalize.maxAliasDepth * k = l at hk hform hkey
  obtain ⟨m, hm⟩ := Nat.exists_eq_add_of_lt (show 0 < n + l by omega)
  rw [Nat.zero_add] at hm
  rw [hm] at hform
  refine ⟨m, ?_, ?_⟩
  · refine targetOf?_eq_some_iff.2 ⟨.inl ⟨rfl, ?_⟩, ?_, render_stars_ne (by omega)⟩
    · rw [hform]
      exact elementType_stars h.isName (m + 1)
    · rw [hform]
      exact toDeclared_stars_ne (Nat.ne_of_lt (Nat.lt_succ_self _))
  · rw [hkey, hkey]
    exact length_render_stars a (by omega)

/-- Every level leads on to a longer name. -/
theorem growing_stars (h : SelfPointer s.names a k) (hk : 2 ≤ o.normalize.maxAliasDepth * k) :
    Growing o s fun t => ∃ n, t = toDeclared s.names (stars a n) := by
  have hpos : 0 < k := by
    refine Nat.pos_of_ne_zero fun hzero => ?_
    rw [hzero, Nat.mul_zero] at hk
    omega
  rintro _ ⟨n, rfl⟩
  cases n with
  | zero =>
      obtain ⟨htarget, hlt⟩ := h.name_grows (o := o) hpos
      exact ⟨_, htarget, ⟨k, rfl⟩, hlt⟩
  | succ n =>
      obtain ⟨m, htarget, hlt⟩ := h.pointer_grows hpos hk n
      exact ⟨_, htarget, ⟨m + 1, rfl⟩, hlt⟩

/-! ### Whole dumps -/

/-- An alias `b` is written as pointers to a name `a` that refers to `b` itself. -/
theorem selfPointer_of_get? {d : Declaration} {scope : List String}
    (hget : names.get? b = some (.typeAlias d (stars a k).render scope))
    (hresolve : names.resolve? a scope = some b) (ha : Shape.IsName a) (hb : Shape.IsName b)
    (hna : Builtin.kind? a = none) (hnb : Builtin.kind? b = none) : SelfPointer names b k := by
  refine ⟨hb, hnb, ?_⟩
  rw [aliasTarget?, hget]
  dsimp only
  rw [Shape.parse_render_of_faithful (legible_stars ha k) (faithful_stars a k),
    qualify_stars hna, hresolve, Option.getD_some]

/-- If the first type of a dump refers to an alias for pointers to itself, no survey that
follows aliases twice, or one of two pointers once, comes to an end. -/
theorem build_eq_none (h : SelfPointer s.names a k) (hk : 2 ≤ o.normalize.maxAliasDepth * k)
    (hne : ∀ e ∈ s.cursor.toList, e.declaration.isEmpty = false)
    (hfirst : s.cursor.upcoming.find? (fun e => !isUntyped e.declaration.kind) = some e)
    (hfield : e.declaration.kind = .field)
    (htype : declaredTypeOf s.names e = toDeclared s.names (stars a n)) (fuel : Nat)
    (id : ArenaId) : build (.standard o) fuel s id = none := by
  cases hb : build (.standard o) fuel s id with
  | none => rfl
  | some r =>
      obtain ⟨uses, hruns⟩ := runs_of_build hb
      have hdelivers : Delivers s s.upcoming := by
        refine delivers fun i hi => ?_
        obtain ⟨e, he, rfl⟩ := List.mem_map.1 hi
        exact hne e (List.mem_of_mem_drop he)
      have hitem : s.upcoming.find? (fun i => !isUntyped i.declaration.kind) =
          some (e.item s.names) := by
        rw [upcoming, List.find?_map]
        exact congrArg (Option.map _) hfirst
      exact absurd hruns (not_runs_of_growing hdelivers (growing_stars h hk) hitem hfield
        ⟨n, htype⟩ rfl)

/-- A namespace with an alias that is spelled like the record that it points to. -/
def endlessDump : Json.Value :=
  .record [("kind", .text "TranslationUnitDecl"), ("inner", .array [
    .record [("kind", .text "CXXRecordDecl"), ("name", .text "A"),
      ("tagUsed", .text "struct"), ("completeDefinition", .bool true)],
    .record [("kind", .text "NamespaceDecl"), ("name", .text "N"), ("inner", .array [
      .record [("kind", .text "TypedefDecl"), ("name", .text "A"),
        ("type", .record [("qualType", .text (stars "A" 512).render)])],
      .record [("kind", .text "CXXRecordDecl"), ("name", .text "S"),
        ("tagUsed", .text "struct"), ("completeDefinition", .bool true),
        ("inner", .array [.record [("kind", .text "FieldDecl"), ("name", .text "a"),
          ("type", .record [("qualType", .text "A")])]])]])]])]

/-- Whatever its options and its fuel, no survey of this dump comes to an end. -/
theorem build_endless : ∃ s, ofJson? "loop.hpp" endlessDump = some s ∧
    ¬Grounded s.names ∧ ∀ (o : SurveyOptions) (fuel : Nat) (id : ArenaId),
      build (.standard o) fuel s id = none := by
  have hall : ∃ s ∈ ofJson? "loop.hpp" endlessDump,
      s.names.get? "N::A" = some (.typeAlias ⟨⟨"loop.hpp", 0, 0⟩, "N::A", "A", .unsupported⟩
        (stars "A" 512).render ["N"]) ∧
      s.names.resolve? "A" ["N"] = some "N::A" ∧
      (∀ e ∈ s.cursor.toList, e.declaration.isEmpty = false) ∧
      ∃ e ∈ s.cursor.upcoming.find? (fun e => !isUntyped e.declaration.kind),
        e.declaration.kind = .field ∧
        declaredTypeOf s.names e = toDeclared s.names (stars "N::A" 0) := by
    decide +kernel
  obtain ⟨s, hv, hget, hresolve, hne, e, hfirst, hfield, htype⟩ := hall
  have hself := selfPointer_of_get? hget hresolve (by decide) (by decide) (by decide) (by decide)
  refine ⟨s, hv, hself.not_grounded (by omega), fun o fuel id => ?_⟩
  have hdepth : 1 ≤ o.normalize.maxAliasDepth := o.normalize_bounds.1
  exact build_eq_none hself (by omega) hne hfirst hfield htype fuel id

end Dump.Source

end DeclAtlas
