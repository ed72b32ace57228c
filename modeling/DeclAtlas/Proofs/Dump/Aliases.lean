import DeclAtlas.Proofs.Dump.Names
import DeclAtlas.Proofs.Shape.Cores
import DeclAtlas.Proofs.Shape.RoundTrip

/-!
# Replacing aliases

A type is known by its spelling alone, so every step that replaces an alias spells the type
anew, and what comes next reads this spelling. A shape stays legible if the name at its core is
legible and so is what that name stands for; whatever else is in the table does not matter. Where
a shape is read back as it was, a step replaces the alias at its core.

A step can build layers that no source can hold: an lvalue reference over the reference that
an alias stands for, or a pointer to what is not taken apart. These are the only ones that
are not read back. A reference to an alias of a reference is spelled like an rvalue
reference, so two different types have one spelling.

## Main results

* `legible_substituteAlias`: replacing an alias keeps a shape legible.
* `stripAlias_of_parse_render`: what one step makes of a type that is read back.
* `toDeclared_parse_stripAlias`: after one step a type is still known from its spelling.
* `respelled_aliasedDump`: an alias of a reference for which it is not.
-/

namespace DeclAtlas.Dump

/-- What an alias stands for, as it was written. -/
def NameMeaning.target? : NameMeaning → Option String
  | .typeAlias _ target _ => some target
  | record _ | enumeration _ => none

/-- A name can be read from wherever it stands, and so can what it stands for, if it is an
alias. -/
structure NameTable.LegibleAt (names : NameTable) (name : String) : Prop where
  isName : Shape.IsName name
  target : ∀ t ∈ Source.aliasTarget? names name, t.Legible

instance (names : NameTable) (name : String) : Decidable (names.LegibleAt name) :=
  decidable_of_iff (Shape.IsName name ∧ ∀ t ∈ Source.aliasTarget? names name, t.Legible)
    ⟨fun ⟨h₁, h₂⟩ => ⟨h₁, h₂⟩, fun h => ⟨h.1, h.2⟩⟩

/-- All names of a table can be read from wherever they stand, and so can what its aliases
stand for. -/
structure NameTable.Legible (names : NameTable) : Prop where
  isName : ∀ p ∈ names.names, Shape.IsName p.1
  target : ∀ p ∈ names.names, ∀ t ∈ p.2.target?, (Shape.parse t).Legible

instance (names : NameTable) : Decidable names.Legible :=
  decidable_of_iff ((∀ p ∈ names.names, Shape.IsName p.1) ∧
    ∀ p ∈ names.names, ∀ t ∈ p.2.target?, (Shape.parse t).Legible)
    ⟨fun ⟨h₁, h₂⟩ => ⟨h₁, h₂⟩, fun h => ⟨h.1, h.2⟩⟩

namespace Source

variable {names : NameTable} {s target : Shape} {t name : String} {e : StreamEntry}

/-! ## Looking names up -/

/-- Looking a core up keeps a shape legible, if the name that is found can be read. -/
theorem legible_qualify (hs : s.Legible) (scope : List String)
    (hname : ∀ name ∈ (qualify names scope s).named?, Shape.IsName name) :
    (qualify names scope s).Legible := by
  rw [qualify_eq] at hname ⊢
  rw [Shape.named?_mapNamed] at hname
  apply hs.mapNamed
  intro name c hn
  exact hname _ (Option.mem_map_of_mem _ hn)

/-- Looking a core up changes no layer. -/
theorem faithful_qualify (hs : s.Faithful) (scope : List String) :
    (qualify names scope s).Faithful := by
  rw [qualify_eq]
  refine ⟨hs.collapsed.mapNamed fun name c => ⟨trivial, rfl⟩, fun hn => ?_⟩
  have hcore : s.named? = none := by
    rw [Shape.named?_mapNamed] at hn
    exact Option.map_eq_none_iff.1 hn
  cases s with
  | named => exact nomatch hcore
  | verbatim => rfl
  | pointer | lValueRef | rValueRef | array => exact nomatch hs.named hcore

theorem aliasTarget_mem (h : aliasTarget? names name = some target) :
    ∃ p ∈ names.names, p.1 = name ∧ ∃ t ∈ p.2.target?, ∃ scope,
      target = qualify names scope (Shape.parse t) := by
  obtain ⟨d, t, scope, hget, htarget⟩ := exists_of_aliasTarget h
  exact ⟨_, NameTable.mem_of_get? hget, rfl, t, rfl, scope, htarget⟩

/-- In a legible table every name that is looked up can be read. -/
theorem isName_qualify (hl : names.Legible) (hs : s.Legible) (scope : List String) :
    ∀ name ∈ (qualify names scope s).named?, Shape.IsName name := by
  rw [qualify_eq, Shape.named?_mapNamed]
  intro name hname
  obtain ⟨core, hcore, rfl⟩ := Option.map_eq_some_iff.1 hname
  exact lookup_of_forall hl.isName (hs.isName hcore) scope

/-- A legible table is legible at every name that can be read. -/
theorem legibleAt (hl : names.Legible) (hname : Shape.IsName name) : names.LegibleAt name where
  isName := hname
  target t ht := by
    obtain ⟨p, hp, -, written, hwritten, scope, rfl⟩ := aliasTarget_mem ht
    have hs := hl.target p hp written hwritten
    exact legible_qualify hs scope (isName_qualify hl hs scope)

/-! ## One step -/

/-- Replacing an alias keeps a shape legible. -/
theorem legible_substituteAlias (hs : s.Legible)
    (hcore : ∀ name ∈ s.named?, names.LegibleAt name) : (substituteAlias names s).Legible := by
  rw [substituteAlias]
  apply hs.mapNamed
  intro name c hn
  cases ha : aliasTarget? names name with
  | none => exact hs.isName hn
  | some target => exact ((hcore name hn).target target ha).withConst c

theorem substituteAlias_of_not_alias (h : ∀ n, s.named? = some n → aliasTarget? names n = none) :
    substituteAlias names s = s := by
  rw [substituteAlias]
  refine Shape.mapNamed_eq_self fun n c hn => ?_
  rw [h n hn]

theorem stripAlias_eq (t : DeclaredType) :
    stripAlias names t =
      if (Shape.parse t.identifier).named?.any (fun n => (aliasTarget? names n).isSome) then
        toDeclared names (substituteAlias names (Shape.parse t.identifier))
      else t := rfl

/-- A type that is read back has its alias replaced, if its core is one. -/
theorem stripAlias_of_parse_render (h : Shape.parse s.render = s) :
    stripAlias names (toDeclared names s) = toDeclared names (substituteAlias names s) := by
  rw [stripAlias_eq, show (toDeclared names s).identifier = s.render from rfl, h]
  split
  · rfl
  · rename_i hnone
    rw [substituteAlias_of_not_alias]
    intro n hn
    rw [hn] at hnone
    simpa using hnone

/-- A faithful type has its alias replaced, if its core is one. -/
theorem stripAlias_of_faithful (hs : s.Legible) (hf : s.Faithful) :
    stripAlias names (toDeclared names s) = toDeclared names (substituteAlias names s) :=
  stripAlias_of_parse_render (Shape.parse_render_of_faithful hs hf)

theorem declaredTypeOf_eq (ht : e.spelling = some t) (hne : t ≠ "") :
    declaredTypeOf names e = toDeclared names (qualify names e.scope (Shape.parse t)) := by
  rw [declaredTypeOf, ht]
  exact if_neg hne

/-- One step from the type of an entry leads to a type that is known from its spelling, if
the shape that the step builds is one that can be read back. -/
theorem toDeclared_parse_stripAlias (e : StreamEntry) (t : String)
    (ht : e.spelling = some t) (hne : t ≠ "") (hlegible : (Shape.parse t).Legible)
    (hstable : Shape.Stable t)
    (hcore : ∀ name ∈ (qualify names e.scope (Shape.parse t)).named?, names.LegibleAt name)
    (hf : (substituteAlias names (qualify names e.scope (Shape.parse t))).Faithful) :
    toDeclared names (Shape.parse (stripAlias names (declaredTypeOf names e)).identifier) =
      stripAlias names (declaredTypeOf names e) := by
  have hq := legible_qualify hlegible e.scope fun name hname => (hcore name hname).isName
  have hread := Shape.parse_render_of_faithful (legible_substituteAlias hq hcore) hf
  rw [declaredTypeOf_eq ht hne,
    stripAlias_of_faithful hq (faithful_qualify (hstable.faithful hlegible) e.scope)]
  exact congrArg (toDeclared names) hread

/-- Fields that are typed by aliases of a pointer, of a reference and of a function type. -/
def aliasedDump : Json.Value :=
  .record [("kind", .text "TranslationUnitDecl"), ("inner", .array [
    .record [("kind", .text "TypedefDecl"), ("name", .text "P"),
      ("type", .record [("qualType", .text "int *")])],
    .record [("kind", .text "TypedefDecl"), ("name", .text "R"),
      ("type", .record [("qualType", .text "int &")])],
    .record [("kind", .text "TypedefDecl"), ("name", .text "F"),
      ("type", .record [("qualType", .text "void (int)")])],
    .record [("kind", .text "CXXRecordDecl"), ("name", .text "Use"),
      ("tagUsed", .text "struct"), ("completeDefinition", .bool true),
      ("inner", .array [
        .record [("kind", .text "FieldDecl"), ("name", .text "p"),
          ("type", .record [("qualType", .text "const P &")])],
        .record [("kind", .text "FieldDecl"), ("name", .text "r"),
          ("type", .record [("qualType", .text "R &")])],
        .record [("kind", .text "FieldDecl"), ("name", .text "f"),
          ("type", .record [("qualType", .text "F *")])]])]])]

theorem toDeclared_parse_stripAlias_pointer : ∃ src e,
    ofJson? "use.hpp" aliasedDump = some src ∧ e ∈ src.cursor.toList ∧
      e.spelling = some "const P &" ∧ (Shape.parse "const P &").Legible ∧
      Shape.Stable "const P &" ∧
      (∀ name ∈ (qualify src.names e.scope (Shape.parse "const P &")).named?,
        src.names.LegibleAt name) ∧
      (substituteAlias src.names (qualify src.names e.scope (Shape.parse "const P &"))).Faithful ∧
      stripAlias src.names (declaredTypeOf src.names e) =
        ⟨"int *const &", false, .lValueRef, 2⟩ ∧
      toDeclared src.names
          (Shape.parse (stripAlias src.names (declaredTypeOf src.names e)).identifier) =
        stripAlias src.names (declaredTypeOf src.names e) := by
  have hall : ∃ src ∈ ofJson? "use.hpp" aliasedDump,
      ∃ e ∈ src.cursor.toList, e.spelling = some "const P &" ∧
        (∀ name ∈ (qualify src.names e.scope (Shape.parse "const P &")).named?,
          src.names.LegibleAt name) ∧
        (substituteAlias src.names
          (qualify src.names e.scope (Shape.parse "const P &"))).Faithful ∧
        stripAlias src.names (declaredTypeOf src.names e) =
          ⟨"int *const &", false, .lValueRef, 2⟩ := by
    decide +kernel
  obtain ⟨src, hv, e, he, ht, hcore, hf, hd⟩ := hall
  have hlegible : (Shape.parse "const P &").Legible := by decide +kernel
  have hstable : Shape.Stable "const P &" := by decide +kernel
  have hne : "const P &" ≠ "" := by decide
  have hread := toDeclared_parse_stripAlias e "const P &" ht hne hlegible hstable hcore hf
  exact ⟨src, e, hv, he, ht, hlegible, hstable, hcore, hf, hd, hread⟩

/-- A reference to an alias of a reference is spelled like an rvalue reference, and a pointer
to an alias of a function type like something that is not taken apart: after one step neither
is known from its spelling, though all spellings of the dump are stable. -/
theorem respelled_aliasedDump : ∃ src, ofJson? "use.hpp" aliasedDump = some src ∧
    src.names.Legible ∧ (∀ p ∈ src.names.names, ∀ t ∈ p.2.target?, Shape.Stable t) ∧
    (∃ e ∈ src.cursor.toList, e.spelling = some "R &" ∧ Shape.Stable "R &" ∧
      stripAlias src.names (declaredTypeOf src.names e) = ⟨"int &&", false, .lValueRef, 2⟩ ∧
      toDeclared src.names (Shape.parse "int &&") = ⟨"int &&", false, .rValueRef, 1⟩) ∧
    (∃ e ∈ src.cursor.toList, e.spelling = some "F *" ∧ Shape.Stable "F *" ∧
      stripAlias src.names (declaredTypeOf src.names e) =
        ⟨"void (int) *", false, .pointer, 1⟩ ∧
      toDeclared src.names (Shape.parse "void (int) *") =
        ⟨"void (int) *", false, .unhandled, 0⟩) := by
  have hall : ∃ src ∈ ofJson? "use.hpp" aliasedDump,
      src.names.Legible ∧ (∀ p ∈ src.names.names, ∀ t ∈ p.2.target?, Shape.Stable t) ∧
      (∃ e ∈ src.cursor.toList, e.spelling = some "R &" ∧ Shape.Stable "R &" ∧
        stripAlias src.names (declaredTypeOf src.names e) =
          ⟨"int &&", false, .lValueRef, 2⟩ ∧
        toDeclared src.names (Shape.parse "int &&") = ⟨"int &&", false, .rValueRef, 1⟩) ∧
      (∃ e ∈ src.cursor.toList, e.spelling = some "F *" ∧ Shape.Stable "F *" ∧
        stripAlias src.names (declaredTypeOf src.names e) =
          ⟨"void (int) *", false, .pointer, 1⟩ ∧
        toDeclared src.names (Shape.parse "void (int) *") =
          ⟨"void (int) *", false, .unhandled, 0⟩) := by
    decide +kernel
  exact hall

end Source

end DeclAtlas.Dump
