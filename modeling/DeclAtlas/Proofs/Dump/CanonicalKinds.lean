import DeclAtlas.Proofs.Dump.Expansion
import DeclAtlas.Proofs.Dump.Termination
import DeclAtlas.Proofs.Survey.Kinds

/-!
# Kinds of canonical forms

An entry is named after the canonical form of a type and is of the kind of the type itself.
The two kinds are told by different means. The kind of a name asks for built-in types first
and for aliases then, but an alias is replaced without asking for its kind; and what is
replaced is read from the spelling of a type, whatever shape the type was made of.

So a type of another kind than `typedef` keeps its kind as long as it is read from its
spelling with an outermost layer, and with the one of its kind. A bare name has none, and it
does not keep its kind where it is the name both of a built-in type and of an alias. In a
legible dump the layer is another one just for an lvalue reference over a reference, which is
spelled like an rvalue reference.

## Main results

* `Steady.kind_stripAlias`: when a step keeps the kind of a type.
* `Layered.kind_followAliases`: when following aliases does, for a type with a layer.
* `canonical_kind`: when the canonical form of a type is of its kind, and what becomes of it.
* `canonical_kind_charDump`: a type that passes its kind on to another.
-/

namespace DeclAtlas

namespace Shape

variable {s : Shape}

/-- What is read from a spelling has the outermost layer of the shape, or it is an rvalue
reference for an lvalue reference. -/
theorem kind_collapse (s : Shape) :
    s.collapse.kind = s.kind ∨ (s.kind = .lValueRef ∧ s.collapse.kind = .rValueRef) := by
  cases s with
  | named | pointer | rValueRef | verbatim => exact Or.inl rfl
  | array s e => cases e <;> exact Or.inl rfl
  | lValueRef s =>
      rw [collapse]
      cases s.collapse with
      | lValueRef | rValueRef => exact Or.inr ⟨rfl, rfl⟩
      | named | pointer | array | verbatim => exact Or.inl rfl

theorem isSome_inner?_collapse (s : Shape) : s.collapse.inner?.isSome = s.inner?.isSome := by
  cases s with
  | named | pointer | rValueRef | verbatim | array => rfl
  | lValueRef s =>
      rw [collapse]
      cases s.collapse <;> rfl

/-- Renaming the core keeps the outermost layer. -/
theorem kind_mapNamed (hs : s.inner?.isSome = true) (f : String → Bool → Shape) :
    (s.mapNamed f).kind = s.kind := by
  cases s with
  | named | verbatim => exact nomatch hs
  | pointer | lValueRef | rValueRef => rfl
  | array s e => cases e <;> rfl

end Shape

namespace Dump.Source

open Shape (parse)
open Survey

variable {names : NameTable} {src : Source} {s : Shape} {t : DeclaredType} {o : SurveyOptions}

/-! ## Types that a source gives out -/

/-- The types of the entries of a source, and those that it has for these in turn. An entry
without a type, as one that is not met, has an empty one. -/
inductive Given (src : Source) : DeclaredType → Prop where
  | blank : Given src {}
  | declared {e : StreamEntry} (he : e ∈ src.cursor.toList) :
      Given src (declaredTypeOf src.names e)
  | element {t : DeclaredType} (ht : Given src t) : Given src (elementType src.names t)
  | stripped {t : DeclaredType} (ht : Given src t) : Given src (stripAlias src.names t)

/-- It does not matter how far a source has been read. -/
theorem Given.of_eq {src' : Source} (hn : src'.names = src.names)
    (he : src'.cursor.toList = src.cursor.toList) (ht : Given src' t) : Given src t := by
  induction ht with
  | blank => exact .blank
  | declared hmem =>
      rw [hn]
      exact .declared (he ▸ hmem)
  | element _ ih =>
      rw [hn]
      exact .element ih
  | stripped _ ih =>
      rw [hn]
      exact .stripped ih

theorem given_declaredType (src : Source) (d : Declaration) :
    Given src (DeclarationSource.declaredType src d) := by
  show Given src (((src.entry? d).map (declaredTypeOf src.names)).getD {})
  cases he : src.entry? d with
  | none => exact .blank
  | some e =>
      have hmem := mem_of_entry? he
      exact .declared hmem

/-- The types of a source are closed under what a survey asks for. -/
theorem Given.target {u : DeclaredType} (ht : Given src t) (h : targetOf? o src t = some u) :
    Given src u := by
  have hform : Given src (formOf o src t) :=
    followAliases_induction (P := Given src) (fun _ h => h.stripped) ht _
  obtain ⟨⟨-, rfl⟩ | ⟨-, rfl⟩, -⟩ := targetOf?_eq_some_iff.1 h
  · exact hform.element
  · exact hform.stripped

/-- All uses of a run are of types of the source. -/
theorem given_of_mem_created {src' : Source} {a a' : Atlas} {uses : List Use}
    (hr : Runs o src a uses a' src') {u : DeclaredType} (hu : u ∈ created uses) :
    Given src u := by
  refine forall_created (hr.calls_induction (Q := fun s : Source =>
    s.names = src.names ∧ s.cursor.toList = src.cursor.toList) ?_ ?_ ?_ ⟨rfl, rfl⟩) u hu
  · intro s hs
    exact ⟨hs.1, (Cursor.toList_next _).trans hs.2⟩
  · intro s d hs
    exact (given_declaredType s d).of_eq hs.1 hs.2
  · intro s t target hs ht htarget
    exact ((ht.of_eq hs.1.symm hs.2.symm).target htarget).of_eq hs.1 hs.2

/-! ## One step -/

/-- The core that is read from the spelling of a type is an alias. -/
def HasAlias (names : NameTable) (t : DeclaredType) : Prop :=
  (parse t.identifier).named?.any (fun n => (aliasTarget? names n).isSome) = true

/-- An alias with no layer around it. -/
def BareAlias (names : NameTable) (t : DeclaredType) : Prop :=
  HasAlias names t ∧ (parse t.identifier).inner? = none

/-- An alias inside an lvalue reference that is read as an rvalue reference. -/
def Crossed (names : NameTable) (t : DeclaredType) : Prop :=
  HasAlias names t ∧ t.kind = .lValueRef ∧ (parse t.identifier).kind = .rValueRef

/-- If there is an alias in it, a type is read with a layer, and the one of its kind. -/
def Steady (names : NameTable) (t : DeclaredType) : Prop :=
  HasAlias names t →
    (parse t.identifier).inner?.isSome = true ∧ (parse t.identifier).kind = t.kind

instance (names : NameTable) (t : DeclaredType) : Decidable (HasAlias names t) :=
  inferInstanceAs (Decidable (_ = _))

instance (names : NameTable) (t : DeclaredType) : Decidable (BareAlias names t) :=
  inferInstanceAs (Decidable (_ ∧ _))

instance (names : NameTable) (t : DeclaredType) : Decidable (Crossed names t) :=
  inferInstanceAs (Decidable (_ ∧ _))

theorem stripAlias_of_not_hasAlias (h : ¬HasAlias names t) : stripAlias names t = t := by
  rw [stripAlias_eq]
  exact if_neg h

theorem stripAlias_of_hasAlias (h : HasAlias names t) :
    stripAlias names t = toDeclared names (substituteAlias names (parse t.identifier)) := by
  rw [stripAlias_eq]
  exact if_pos h

theorem kind_toDeclared (hs : s.inner?.isSome = true) : (toDeclared names s).kind = s.kind := by
  cases s with
  | named | verbatim => exact nomatch hs
  | pointer | lValueRef | rValueRef | array => rfl

theorem isSome_inner?_substituteAlias (hs : s.inner?.isSome = true) :
    (substituteAlias names s).inner?.isSome = true := by
  obtain ⟨u, hu⟩ := Option.isSome_iff_exists.1 hs
  rw [substituteAlias, Shape.inner?_mapNamed hu]
  rfl

/-- A type with a layer is afterwards of the kind that it is read with. -/
theorem kind_stripAlias (h : HasAlias names t)
    (hi : (parse t.identifier).inner?.isSome = true) :
    (stripAlias names t).kind = (parse t.identifier).kind := by
  rw [stripAlias_of_hasAlias h, kind_toDeclared (isSome_inner?_substituteAlias hi)]
  exact Shape.kind_mapNamed hi _

theorem Steady.kind_stripAlias (h : Steady names t) : (stripAlias names t).kind = t.kind := by
  by_cases ha : HasAlias names t
  · obtain ⟨hi, hk⟩ := h ha
    rw [Source.kind_stripAlias ha hi, hk]
  · rw [stripAlias_of_not_hasAlias ha]

/-- What is steady at every step keeps its kind to the end. -/
theorem kind_followAliases {bound : Nat}
    (h : ∀ k < bound, Steady names ((stripAlias names)^[k] t)) :
    (followAliases (stripAlias names) bound t).kind = t.kind := by
  induction bound generalizing t with
  | zero => rfl
  | succ bound ih =>
      have hnext : ∀ k < bound, Steady names ((stripAlias names)^[k] (stripAlias names t)) :=
        fun k hk => h (k + 1) (Nat.succ_lt_succ hk)
      have hfirst : Steady names t := h 0 (Nat.succ_pos bound)
      rw [followAliases]
      split
      · rfl
      · dsimp only
        split
        · rfl
        · rw [ih hnext, hfirst.kind_stripAlias]

/-! ## Legible dumps -/

/-- No type at all, or one with a legible shape. -/
inductive Spelled (names : NameTable) : DeclaredType → Prop where
  | blank : Spelled names {}
  | shape {s : Shape} (hs : LegibleIn names s) : Spelled names (toDeclared names s)

/-- A type with a legible shape that has a layer. -/
inductive Layered (names : NameTable) : DeclaredType → Prop where
  | shape {s : Shape} (hs : LegibleIn names s) (hi : s.inner?.isSome = true) :
      Layered names (toDeclared names s)

theorem parse_of_hasAlias (hs : LegibleIn names s) (h : HasAlias names (toDeclared names s)) :
    parse (toDeclared names s).identifier = s.collapse := by
  have hread : parse (toDeclared names s).identifier = s.reread := Shape.parse_render hs.shape
  unfold HasAlias at h
  rw [hread] at h ⊢
  unfold Shape.reread at h ⊢
  split
  · rfl
  · rename_i hn
    rw [if_neg hn] at h
    exact nomatch h

theorem Given.spelled (hl : src.Legible) (ht : Given src t) : Spelled src.names t := by
  induction ht with
  | blank => exact .blank
  | @declared e he =>
      unfold declaredTypeOf
      split
      · rename_i spelling hs
        split
        · exact .blank
        · rename_i hne
          exact .shape (hl.spelling e he spelling hs hne)
      · exact .blank
  | element _ ih =>
      unfold elementType
      cases ih with
      | blank => exact .blank
      | @shape s hs =>
          have hread : parse (toDeclared src.names s).identifier = s.reread :=
            Shape.parse_render hs.shape
          rw [hread]
          cases hi : s.reread.inner? with
          | none => exact .blank
          | some inner => exact .shape (hs.reread.inner hi)
  | stripped _ ih =>
      cases ih with
      | blank =>
          rw [stripAlias_blank hl.blank]
          exact .blank
      | @shape s hs =>
          by_cases ha : HasAlias src.names (toDeclared src.names s)
          · rw [stripAlias_of_hasAlias ha, parse_of_hasAlias hs ha]
            exact .shape hs.collapse.substituteAlias
          · rw [stripAlias_of_not_hasAlias ha]
            exact .shape hs

/-- What has an alias in it but is not a bare one has a layer. -/
theorem Spelled.layered (ht : Spelled names t) (ha : HasAlias names t)
    (hb : ¬BareAlias names t) : Layered names t := by
  cases ht with
  | blank => exact absurd ⟨ha, rfl⟩ hb
  | @shape s hs =>
      have hi : (parse (toDeclared names s).identifier).inner?.isSome = true :=
        Option.isSome_iff_ne_none.2 fun hnone => hb ⟨ha, hnone⟩
      rw [parse_of_hasAlias hs ha, Shape.isSome_inner?_collapse] at hi
      exact .shape hs hi

namespace Layered

theorem kind_ne (ht : Layered names t) : t.kind ≠ .typedef := by
  obtain ⟨-, hi⟩ := ht
  obtain ⟨u, hu⟩ := Option.isSome_iff_exists.1 hi
  exact kind_of_inner hu

theorem isSome_inner? (ht : Layered names t) (ha : HasAlias names t) :
    (parse t.identifier).inner?.isSome = true := by
  obtain ⟨hs, hi⟩ := ht
  rwa [parse_of_hasAlias hs ha, Shape.isSome_inner?_collapse]

theorem stripAlias (ht : Layered names t) : Layered names (stripAlias names t) := by
  by_cases ha : HasAlias names t
  · have hi := ht.isSome_inner? ha
    rw [stripAlias_of_hasAlias ha]
    obtain ⟨hs, -⟩ := ht
    rw [parse_of_hasAlias hs ha] at hi ⊢
    exact .shape hs.collapse.substituteAlias (isSome_inner?_substituteAlias hi)
  · rwa [stripAlias_of_not_hasAlias ha]

/-- A type with a layer is crossed if it is not read with this layer. -/
theorem kind_parse (ht : Layered names t) (ha : HasAlias names t) :
    (parse t.identifier).kind = t.kind ∨ Crossed names t := by
  cases ht with
  | @shape s hs hi =>
      have hread := parse_of_hasAlias hs ha
      have hkind : (toDeclared names s).kind = s.kind := kind_toDeclared hi
      rcases Shape.kind_collapse s with hk | ⟨hleft, hright⟩
      · exact Or.inl (by rw [hread, hkind, hk])
      · exact Or.inr ⟨ha, by rw [hkind, hleft], by rw [hread, hright]⟩

end Layered

/-- A legible rvalue reference. -/
inductive IsRValueRef (names : NameTable) : DeclaredType → Prop where
  | shape {s : Shape} (hs : LegibleIn names (.rValueRef s)) :
      IsRValueRef names (toDeclared names (.rValueRef s))

theorem IsRValueRef.kind (ht : IsRValueRef names t) : t.kind = .rValueRef := by
  cases ht
  rfl

theorem IsRValueRef.stripAlias (ht : IsRValueRef names t) :
    IsRValueRef names (stripAlias names t) := by
  by_cases ha : HasAlias names t
  · cases ht with
    | @shape s hs =>
        rw [stripAlias_of_hasAlias ha, parse_of_hasAlias hs ha]
        exact .shape hs.collapse.substituteAlias
  · rwa [stripAlias_of_not_hasAlias ha]

theorem Crossed.isRValueRef (ht : Layered names t) (hc : Crossed names t) :
    IsRValueRef names (Source.stripAlias names t) := by
  obtain ⟨ha, -, hk⟩ := hc
  rw [stripAlias_of_hasAlias ha]
  obtain ⟨hs, -⟩ := ht
  rw [parse_of_hasAlias hs ha] at hk ⊢
  have hlegible := hs.collapse.substituteAlias
  generalize Shape.collapse _ = c at hk hlegible ⊢
  cases c with
  | rValueRef c => exact .shape hlegible
  | array c e => cases e <;> exact nomatch hk
  | named | pointer | lValueRef | verbatim => exact nomatch hk

/-- Following aliases keeps the kind of a type with a layer unless it is crossed on the way. -/
theorem Layered.kind_followAliases (ht : Layered names t) (bound : Nat) :
    (followAliases (Source.stripAlias names) bound t).kind = t.kind ↔
      ∀ k < bound, ¬Crossed names ((Source.stripAlias names)^[k] t) := by
  induction bound generalizing t with
  | zero => exact iff_of_true rfl fun k hk => absurd hk (Nat.not_lt_zero k)
  | succ bound ih =>
      rw [Nat.forall_lt_succ_left]
      by_cases hc : Crossed names t
      · -- Once it is an rvalue reference it never is an lvalue reference again.
        have hmoves : Source.stripAlias names t ≠ t := by
          intro heq
          have hk := kind_stripAlias hc.1 (ht.isSome_inner? hc.1)
          rw [heq, hc.2.1, hc.2.2] at hk
          exact absurd hk (by decide)
        have hend : IsRValueRef names
            (followAliases (Source.stripAlias names) bound (Source.stripAlias names t)) :=
          followAliases_induction (fun _ h => h.stripAlias) (hc.isRValueRef ht) bound
        rw [followAliases_step ht.kind_ne hmoves]
        refine iff_of_false (fun heq => ?_) fun hall => hall.1 hc
        rw [hc.2.1, hend.kind] at heq
        exact absurd heq (by decide)
      · have hsame : (Source.stripAlias names t).kind = t.kind := by
          by_cases ha : HasAlias names t
          · rw [kind_stripAlias ha (ht.isSome_inner? ha)]
            exact (ht.kind_parse ha).resolve_right hc
          · rw [stripAlias_of_not_hasAlias ha]
        have hfollow : (followAliases (Source.stripAlias names) (bound + 1) t).kind =
            (followAliases (Source.stripAlias names) bound (Source.stripAlias names t)).kind := by
          by_cases heq : Source.stripAlias names t = t
          · rw [heq, followAliases_fixed heq, followAliases_fixed heq]
          · rw [followAliases_step ht.kind_ne heq]
        rw [hfollow, ← hsame, ih ht.stripAlias]
        exact ⟨fun hall => ⟨hc, hall⟩, fun hall => hall.2⟩

/-! ## Canonical forms and entries -/

theorem followAliases_of_not_hasAlias (h : ¬HasAlias names t) (bound : Nat) :
    followAliases (stripAlias names) bound t = t :=
  followAliases_fixed (stripAlias_of_not_hasAlias h) bound

/-- Once there is no alias left nothing changes any more. -/
theorem iterate_of_not_hasAlias {m k : Nat} (h : ¬HasAlias names ((stripAlias names)^[m] t))
    (hk : m ≤ k) : (stripAlias names)^[k] t = (stripAlias names)^[m] t := by
  have hsplit : k = (k - m) + m := (Nat.sub_add_cancel hk).symm
  rw [hsplit, Function.iterate_add_apply]
  exact Function.iterate_fixed (stripAlias_of_not_hasAlias h) _

/-- A bare alias of another kind than `typedef` has the name of a built-in type of that kind. -/
theorem Spelled.kind_of_bare (hblank : aliasTarget? names "" = none) (ht : Spelled names t)
    (hk : t.kind ≠ .typedef) (hb : BareAlias names t) :
    ∃ n c, parse t.identifier = .named n c ∧ Builtin.kind? n = some t.kind := by
  obtain ⟨ha, hi⟩ := hb
  cases ht with
  | blank =>
      have hempty : (aliasTarget? names "").isSome = true := ha
      rw [hblank] at hempty
      exact nomatch hempty
  | @shape s hs =>
      have hread := parse_of_hasAlias hs ha
      have hlayer := Shape.isSome_inner?_collapse s
      unfold HasAlias at ha
      rw [hread] at ha hi ⊢
      rw [hi] at hlayer
      cases s with
      | pointer | lValueRef | rValueRef | array => exact nomatch hlayer
      | verbatim => exact nomatch ha
      | named n c =>
          refine ⟨n, c, rfl, ?_⟩
          have halias : (aliasTarget? names n).isSome = true := ha
          obtain ⟨target, htarget⟩ := Option.isSome_iff_exists.1 halias
          obtain ⟨d, written, scope, hget, -⟩ := exists_of_aliasTarget htarget
          have hnamed : (toDeclared names (.named n c)).kind = namedKind names n := rfl
          rw [hnamed] at hk ⊢
          unfold namedKind at hk ⊢
          cases hn : Builtin.kind? n with
          | some kind => rfl
          | none =>
              rw [hn, hget] at hk
              exact absurd rfl hk

/-- When the canonical form of a type is of its kind. -/
structure KeepsKind (src : Source) (o : SurveyOptions) (t : DeclaredType) : Prop where
  /-- If the type is steady all the way. -/
  steady : (∀ k < o.normalize.maxAliasDepth, Steady src.names ((stripAlias src.names)^[k] t)) →
    (formOf o src t).kind = t.kind
  /-- In a legible dump, just if it is not crossed on the way. -/
  legible : src.Legible → ¬BareAlias src.names t →
    ((formOf o src t).kind = t.kind ↔ ∀ k < o.normalize.maxAliasDepth,
      ¬Crossed src.names ((stripAlias src.names)^[k] t))
  /-- Apart from built-in types with the name of an alias. -/
  bare : src.Legible → BareAlias src.names t →
    ∃ n c, parse t.identifier = .named n c ∧ Builtin.kind? n = some t.kind

/-- The canonical form of a type of another kind than `typedef` is of its kind, with the
exceptions that `KeepsKind` tells. Every entry of an atlas is named after the canonical form of
a type of the source, and it is of the kind of that type or marked as not modelled. -/
theorem canonical_kind (src : Source) (o : SurveyOptions) :
    (∀ t, Given src t → t.kind ≠ .typedef → KeepsKind src o t) ∧
    ∀ fuel id a src', build (.standard o) fuel src id = some (a, src') →
      ∀ h e, a.types.get? h = some e →
        ∃ t, Given src t ∧ e.identifier = (formOf o src t).identifier ∧
          (t.kind = .typedef → formOf o src t = t) ∧
          (e.kind = t.kind ∨ e.kind = .unhandled) := by
  constructor
  · intro t ht hk
    refine ⟨kind_followAliases, fun hl hb => ?_, fun hl => (ht.spelled hl).kind_of_bare hl.blank hk⟩
    by_cases ha : HasAlias src.names t
    · exact ((ht.spelled hl).layered ha hb).kind_followAliases _
    · have hform : formOf o src t = t := followAliases_of_not_hasAlias ha _
      refine iff_of_true (by rw [hform]) fun k _ hc => ha ?_
      rw [iterate_of_not_hasAlias (m := 0) ha (Nat.zero_le k)] at hc
      exact hc.1
  · intro fuel id a src' hb h e he
    obtain ⟨uses, hr⟩ := runs_of_build hb
    obtain ⟨u, hu, -, hf⟩ := hr.exists_created he
    exact ⟨u, given_of_mem_created hr hu, hf.layer.identifier, canonical_typedef, hf.layer.kind⟩

theorem canonical_kind_rowDump : ∃ src e a src', ofJson? "row.hpp" rowDump = some src ∧
    e ∈ src.cursor.toList ∧ e.spelling = some "const N::Row &" ∧
    (declaredTypeOf src.names e).kind = .lValueRef ∧
    KeepsKind src {} (declaredTypeOf src.names e) ∧
    (formOf {} src (declaredTypeOf src.names e)).kind = .lValueRef ∧
    build (.standard {}) 30 src ⟨1⟩ = some (a, src') ∧
    ∀ h e, a.types.get? h = some e →
      ∃ t, Given src t ∧ e.identifier = (formOf {} src t).identifier ∧
        (t.kind = .typedef → formOf {} src t = t) ∧
        (e.kind = t.kind ∨ e.kind = .unhandled) := by
  have hall : ∃ src ∈ ofJson? "row.hpp" rowDump, src.names.Legible ∧
      (∀ e ∈ src.cursor.toList, ∀ t ∈ e.spelling, t ≠ "" → (parse t).Legible) ∧
      ∃ e ∈ src.cursor.toList, e.spelling = some "const N::Row &" ∧
        (declaredTypeOf src.names e).kind = .lValueRef ∧
        ¬BareAlias src.names (declaredTypeOf src.names e) ∧
        (∀ k < 3, ¬Crossed src.names
          ((stripAlias src.names)^[k] (declaredTypeOf src.names e))) ∧
        ¬HasAlias src.names ((stripAlias src.names)^[2] (declaredTypeOf src.names e)) ∧
        (build (.standard {}) 30 src ⟨1⟩).isSome = true := by
    decide +kernel
  obtain ⟨src, hv, hnames, hspelling, e, he, hs, hk, hbare, hfirst, hend, hbuild⟩ := hall
  have hl : src.Legible := legible_of_names hnames hspelling
  obtain ⟨⟨a, src'⟩, hb⟩ := Option.isSome_iff_exists.1 hbuild
  obtain ⟨htypes, hentries⟩ := canonical_kind src {}
  have hkeeps : KeepsKind src {} (declaredTypeOf src.names e) :=
    htypes _ (.declared he) (by rw [hk]; decide)
  have hcrossed : ∀ k < 16, ¬Crossed src.names
      ((stripAlias src.names)^[k] (declaredTypeOf src.names e)) := by
    intro k _
    rcases Nat.lt_or_ge k 2 with hlt | hge
    · exact hfirst k (by omega)
    · rw [iterate_of_not_hasAlias hend hge]
      exact hfirst 2 (by omega)
  have hkind := (hkeeps.legible hl hbare).2 hcrossed
  exact ⟨src, e, a, src', hv, he, hs, hk, hkeeps, hkind.trans hk, hb,
    hentries 30 ⟨1⟩ a src' hb⟩

/-- A struct with a field of a built-in type that an alias has the name of, and one of the type
that this alias stands for. -/
def charDump : Json.Value :=
  .record [("kind", .text "TranslationUnitDecl"), ("inner", .array [
    aliasValue "char16_t" "unsigned short",
    .record [("kind", .text "CXXRecordDecl"), ("name", .text "S"), ("tagUsed", .text "struct"),
      ("completeDefinition", .bool true), ("inner", .array [
        .record [("kind", .text "FieldDecl"), ("name", .text "c"),
          ("type", .record [("qualType", .text "char16_t")])],
        .record [("kind", .text "FieldDecl"), ("name", .text "u"),
          ("type", .record [("qualType", .text "unsigned short")])]])]])]

/-- The type of the first field is `char16`, but its canonical form is `unsigned short`, of
another kind. The entry of `unsigned short`, which the second field has as well, says
`char16`. -/
theorem canonical_kind_charDump : ∃ src, ofJson? "char.hpp" charDump = some src ∧
    ∃ c ∈ src.cursor.toList, declaredTypeOf src.names c = ⟨"char16_t", false, .char16, 0⟩ ∧
    ∃ u ∈ src.cursor.toList,
      declaredTypeOf src.names u = ⟨"unsigned short", false, .uShort, 0⟩ ∧
      formOf {} src (declaredTypeOf src.names c) = ⟨"unsigned short", false, .uShort, 0⟩ ∧
      formOf {} src (declaredTypeOf src.names u) = ⟨"unsigned short", false, .uShort, 0⟩ ∧
      ∃ a src' e, build (.standard {}) 9 src ⟨1⟩ = some (a, src') ∧
        a.types.get? (a.findType "unsigned short") = some e ∧ e.kind = .char16 := by
  have hall : ∃ src ∈ ofJson? "char.hpp" charDump,
      ∃ c ∈ src.cursor.toList, declaredTypeOf src.names c = ⟨"char16_t", false, .char16, 0⟩ ∧
      ∃ u ∈ src.cursor.toList,
        declaredTypeOf src.names u = ⟨"unsigned short", false, .uShort, 0⟩ ∧
        formOf {} src (declaredTypeOf src.names c) = ⟨"unsigned short", false, .uShort, 0⟩ ∧
        formOf {} src (declaredTypeOf src.names u) = ⟨"unsigned short", false, .uShort, 0⟩ ∧
        ∃ r ∈ build (.standard {}) 9 src ⟨1⟩,
          ∃ e ∈ r.1.types.get? (r.1.findType "unsigned short"), e.kind = .char16 := by
    decide +kernel
  obtain ⟨src, hv, c, hc, hdc, u, hu, hdu, hfc, hfu, ⟨a, src'⟩, hb, e, he, hk⟩ := hall
  exact ⟨src, hv, c, hc, hdc, u, hu, hdu, hfc, hfu, a, src', e, hb, he, hk⟩

end Dump.Source

end DeclAtlas
