import DeclAtlas.Proofs.Dump.Names
import DeclAtlas.Proofs.Shape.Reading
import DeclAtlas.Proofs.Survey.Integrity
import DeclAtlas.Proofs.Survey.Kinds

/-!
# Structs and their structures

A use of a type in a dump is spelled from a shape that could be read. If the names of a dump
read as themselves, then the use whose canonical form is spelled like a name is the use of
that very name: nothing else is spelled so, and an alias leads there only from a use of kind
`typedef`, which is not followed. So the entry of a record is made by a use of kind `struct`,
whatever declaration comes first, and is linked to the structure of that record.

## Main results

* `IsUse.target`: what a use leads on to is a use.
* `eq_of_identifier`: the use whose canonical form is spelled like a record.
* `build_structsLinked`: every entry of a record is linked to its structure.
-/

namespace DeclAtlas.Dump.Source

open Survey

variable {names : NameTable} {s : Shape} {t u : DeclaredType} {name q : String}

/-! ## Uses of types -/

/-- A type as a dump uses it: none at all, or one with a shape that could be read. -/
inductive IsUse (names : NameTable) : DeclaredType → Prop where
  | blank : IsUse names {}
  | shape {s : Shape} (h : s.Readable) : IsUse names (toDeclared names s)

/-- The names of a table read as themselves, and none is that of a built-in type. -/
def PlainNames (names : NameTable) : Prop :=
  ∀ p ∈ names.names, Shape.parse p.1 = .named p.1 false ∧ Builtin.kind? p.1 = none

instance (names : NameTable) : Decidable (PlainNames names) :=
  inferInstanceAs (Decidable (∀ p ∈ names.names, _ ∧ _))

theorem isCore_of_parse (h : Shape.parse name = .named name false) : Shape.IsCore name := by
  have hr := Shape.readable_parse name
  rwa [h] at hr

theorem readable_qualify (hp : PlainNames names) (hs : s.Readable) (scope : List String) :
    (qualify names scope s).Readable := by
  rw [qualify_eq]
  exact hs.mapNamed fun name c hcore =>
    lookup_of_forall (fun p hmem => isCore_of_parse (hp p hmem).1) hcore scope

theorem readable_aliasTarget (hp : PlainNames names) (h : aliasTarget? names name = some s) :
    s.Readable := by
  obtain ⟨d, target, scope, -, rfl⟩ := exists_of_aliasTarget h
  exact readable_qualify hp (Shape.readable_parse _) scope

theorem readable_substituteAlias (hp : PlainNames names) (hs : s.Readable) :
    (substituteAlias names s).Readable := by
  refine hs.mapNamed fun name c hcore => ?_
  cases ha : aliasTarget? names name with
  | none => exact hcore
  | some target => exact (readable_aliasTarget hp ha).withConst c

theorem isUse_elementType (names : NameTable) (t : DeclaredType) :
    IsUse names (elementType names t) := by
  unfold elementType
  cases hi : (Shape.parse t.identifier).inner? with
  | none => exact .blank
  | some s => exact .shape ((Shape.readable_parse _).inner hi)

theorem IsUse.stripAlias (hp : PlainNames names) (ht : IsUse names t) :
    IsUse names (stripAlias names t) := by
  unfold Source.stripAlias
  dsimp only
  split
  · exact .shape (readable_substituteAlias hp (Shape.readable_parse _))
  · exact ht

theorem isUse_declaredTypeOf (hp : PlainNames names) (e : StreamEntry) :
    IsUse names (declaredTypeOf names e) := by
  unfold declaredTypeOf
  split
  · split
    · exact .blank
    · exact .shape (readable_qualify hp (Shape.readable_parse _) _)
  · exact .blank

theorem isUse_declaredType (src : Source) (hp : PlainNames src.names) (d : Declaration) :
    IsUse src.names (DeclarationSource.declaredType src d) := by
  show IsUse src.names (((src.entry? d).map (declaredTypeOf src.names)).getD {})
  cases src.entry? d with
  | none => exact .blank
  | some e => exact isUse_declaredTypeOf hp e

theorem formOf_eq (o : SurveyOptions) (src : Source) (t : DeclaredType) :
    formOf o src t =
      followAliases (stripAlias src.names) o.normalize.maxAliasDepth t := rfl

/-- What a use leads on to is a use. -/
theorem IsUse.target {o : SurveyOptions} {src : Source} (hp : PlainNames src.names)
    (ht : IsUse src.names t) (h : targetOf? o src t = some u) : IsUse src.names u := by
  have hform : IsUse src.names (formOf o src t) :=
    followAliases_induction (P := IsUse src.names) (fun _ ht => ht.stripAlias hp) ht _
  obtain ⟨⟨-, rfl⟩ | ⟨-, rfl⟩, -, -⟩ := targetOf?_eq_some_iff.1 h
  · exact isUse_elementType ..
  · exact hform.stripAlias hp

/-! ## Uses that are spelled like a name -/

/-- A use that reads as a registered name is the use of that name. -/
theorem IsUse.eq_of_parse (hr : names.AllRegistered) (ht : IsUse names t)
    {meaning : NameMeaning} (hm : names.get? name = some meaning)
    (h : Shape.parse t.identifier = .named name false) :
    t = toDeclared names (.named name false) := by
  cases ht with
  | blank =>
      have hempty : Shape.parse "" = .named "" false := by decide
      rw [hempty] at h
      exact absurd (Shape.named.inj h).1.symm (hr.get? hm).ne
  | shape hs => rw [Shape.eq_of_parse_render hs h]

theorem mapNamed_eq_named {f : String → Bool → Shape} {c : Bool}
    (h : s.mapNamed f = .named name c) : ∃ n c', s = .named n c' ∧ f n c' = .named name c := by
  cases s with
  | named n c' => exact ⟨n, c', rfl, h⟩
  | pointer | lValueRef | rValueRef | array | verbatim => exact nomatch h

theorem withConst_eq_named {c c' : Bool} (h : s.withConst c = .named name c') :
    c' = false → c = false := by
  cases s with
  | named n c'' =>
      have hor : (c'' || c) = c' := (Shape.named.inj h).2
      rintro rfl
      exact (Bool.or_eq_false_iff.1 hor).2
  | pointer | lValueRef | rValueRef | array | verbatim => exact nomatch h

/-- Only a use of kind `typedef` becomes the use of a name by replacing an alias. -/
theorem kind_of_stripAlias (hr : names.AllRegistered) (hp : PlainNames names)
    (ht : IsUse names t) (hq : Shape.parse q = .named q false)
    (h : stripAlias names t = toDeclared names (.named q false))
    (hne : stripAlias names t ≠ t) : t.kind = .typedef := by
  unfold stripAlias at h hne
  dsimp only at h hne
  split at h
  · rename_i halias
    have hrender : Shape.render (substituteAlias names (Shape.parse t.identifier)) = q := by
      have hid := congrArg DeclaredType.identifier h
      simpa [toDeclared] using hid
    have hshape : substituteAlias names (Shape.parse t.identifier) = .named q false :=
      Shape.eq_of_parse_render
        (readable_substituteAlias hp (Shape.readable_parse _)) (by rw [hrender, hq])
    obtain ⟨k, c, hparse, hk⟩ := mapNamed_eq_named hshape
    rw [hparse] at halias
    obtain ⟨target, htarget⟩ := Option.isSome_iff_exists.1 (show
      (aliasTarget? names k).isSome = true from halias)
    rw [htarget] at hk
    obtain rfl : c = false := withConst_eq_named hk rfl
    obtain ⟨d, written, scope, hget, -⟩ := exists_of_aliasTarget htarget
    rw [ht.eq_of_parse hr hget hparse]
    simp only [toDeclared, namedKind, (hp _ (NameTable.mem_of_get? hget)).2, hget]
  · rename_i halias
    rw [if_neg halias] at hne
    exact absurd rfl hne

/-- A use whose aliases lead to what is spelled like a registered name is itself the use of
that name: an alias that stands for the name is of kind `typedef` and is not followed. -/
theorem eq_of_identifier (hr : names.AllRegistered) (hp : PlainNames names)
    (ht : IsUse names t) {meaning : NameMeaning} (hm : names.get? q = some meaning)
    {bound : Nat}
    (h : (followAliases (stripAlias names) bound t).identifier = q) :
    t = toDeclared names (.named q false) := by
  have hparse : Shape.parse q = .named q false := (hp _ (NameTable.mem_of_get? hm)).1
  have hself : t.identifier = q → t = toDeclared names (.named q false) := by
    intro hq
    exact ht.eq_of_parse hr hm (by rw [hq, hparse])
  induction bound generalizing t with
  | zero => exact hself h
  | succ bound ih =>
      rw [followAliases] at h
      split at h
      · exact hself h
      · rename_i hkind
        dsimp only at h
        split at h
        · exact hself h
        · rename_i hne
          have hstrip := ht.stripAlias hp
          have heq := ih hstrip h fun hq =>
            hstrip.eq_of_parse hr hm (by rw [hq, hparse])
          exact absurd (kind_of_stripAlias hr hp ht hparse heq hne) hkind

/-! ## Entries of records -/

section Records

variable {o : SurveyOptions} {src src' : Source} {a a' : Atlas} {uses : List Use}
  {d : Declaration}

/-- All that a run enters are uses. -/
theorem isUse_of_mem_calls (hp : PlainNames src.names) (hr : Runs o src a uses a' src') :
    ∀ u ∈ uses, ∀ c ∈ u.calls, IsUse src.names c.type := by
  refine hr.calls_induction (Q := fun s : Source => s.names = src.names) ?_ ?_ ?_ rfl
  · intro s hs
    exact hs
  · intro s d hs
    rw [← hs] at hp ⊢
    exact isUse_declaredType s hp d
  · intro s t target hs ht htarget
    rw [← hs] at hp ht ⊢
    exact ht.target hp htarget

theorem isUse_of_mem_created (hp : PlainNames src.names) (hr : Runs o src a uses a' src')
    (hu : u ∈ created uses) : IsUse src.names u :=
  forall_created (isUse_of_mem_calls hp hr) u hu

theorem kind_toDeclared_record (hp : PlainNames names) (hq : names.get? q = some (.record d)) :
    (toDeclared names (.named q false)).kind = .struct := by
  simp only [toDeclared, namedKind, (hp _ (NameTable.mem_of_get? hq)).2, hq]

/-- A use that is entered under the name of a record is linked to that record. -/
theorem recordName?_of_record (hr : src.names.AllRegistered) (hp : PlainNames src.names)
    (hq : src.names.get? q = some (.record d)) (hkind : t.kind = .struct)
    (hkey : keyOf o src t = q) : recordName? o src t = some q := by
  have hparse : Shape.parse q = .named q false := (hp _ (NameTable.mem_of_get? hq)).1
  have hdecl : DeclarationSource.typeDeclaration src (formOf o src t) = d := by
    show typeDeclaration src.names (formOf o src t) = d
    rw [typeDeclaration, show (formOf o src t).identifier = q from hkey, hparse]
    simp [hq, NameMeaning.declaration]
  have hrule : ruleOf t.kind = .record := by rw [hkind]; rfl
  have hreg := hr.get? hq
  rw [recordName?, hdecl, if_pos ⟨hrule, hreg.record d rfl⟩]
  exact congrArg some hreg.declaration

/-- In every atlas that is built from a dump whose names read as themselves, the entry that
is spelled like a record is of kind `struct` and linked to the structure of that record. -/
theorem build_structsLinked {input : String} {v : Json.Value} {src src' : Source}
    (hv : ofJson? input v = some src) (hp : PlainNames src.names) {o : SurveyOptions}
    {fuel : Nat} {id : ArenaId} {a : Atlas}
    (hb : build (.standard o) fuel src id = some (a, src')) {d : Declaration}
    (hq : src.names.get? q = some (.record d)) {h : TypeHandle} {e : TypeEntry}
    (he : a.types.get? h = some e) (hi : e.identifier = q) :
    e.kind = .struct ∧ e.baseStructure.isNull = false ∧
      e.baseStructure = a.findStructure q := by
  have hr := registered_ofJson hv
  obtain ⟨uses, hruns⟩ := runs_of_build hb
  -- Whatever has the name of the record is a use of that name.
  have hname : ∀ t, IsUse src.names t → keyOf o src t = q → t.kind = .struct := by
    intro t ht hkey
    rw [eq_of_identifier hr hp ht hq (by rw [← formOf_eq]; exact hkey)]
    exact kind_toDeclared_record hp hq
  have hkind : StructKind q a := by
    refine hruns.structKind ?_ fun x e hx => absurd hx.mem_keys List.not_mem_nil
    intro u hu c hc hkey
    exact hname _ (isUse_of_mem_calls hp hruns u hu c hc) hkey
  obtain ⟨u, hu, hk, hf⟩ := hruns.exists_created he
  have hkey : keyOf o src u = q := hf.layer.identifier.symm.trans hi
  have hstruct := hname u (isUse_of_mem_created hp hruns hu) hkey
  have hfinds := hf.baseStructure
  rw [recordName?_of_record hr hp hq hstruct hkey] at hfinds
  rw [hkey] at hk
  refine ⟨hkind hk, ?_, hfinds.2⟩
  rw [hfinds.2]
  exact (Registry.isNull_find_eq_false_iff _ _).2 hfinds.1

end Records

/-- A struct with a pointer to itself, as a compiler dumps it. -/
def linkedDump : Json.Value :=
  .record [("kind", .text "TranslationUnitDecl"), ("inner", .array [
    .record [("kind", .text "CXXRecordDecl"), ("name", .text "Node"),
      ("tagUsed", .text "struct"), ("completeDefinition", .bool true),
      ("inner", .array [.record [("kind", .text "FieldDecl"), ("name", .text "next"),
        ("type", .record [("qualType", .text "struct Node *")])]])]])]

theorem structsLinked_linkedDump : ∃ src a src' h e,
    ofJson? "node.hpp" linkedDump = some src ∧ PlainNames src.names ∧
      build (.standard {}) 9 src ⟨1⟩ = some (a, src') ∧
      src.names.get? "Node" =
        some (.record ⟨⟨"node.hpp", 0, 0⟩, "Node", "Node", .structDecl⟩) ∧
      a.types.get? h = some e ∧ e.identifier = "Node" ∧
      e.kind = .struct ∧ e.baseStructure.isNull = false ∧
      e.baseStructure = a.findStructure "Node" := by
  have hall : ∃ src ∈ ofJson? "node.hpp" linkedDump, PlainNames src.names ∧
      src.names.get? "Node" =
        some (.record ⟨⟨"node.hpp", 0, 0⟩, "Node", "Node", .structDecl⟩) ∧
      ∃ r ∈ build (.standard {}) 9 src ⟨1⟩,
        ∃ e ∈ r.1.types.get? (r.1.findType "Node"), e.identifier = "Node" := by
    decide +kernel
  obtain ⟨src, hv, hp, hq, ⟨a, src'⟩, hb, e, he, hi⟩ := hall
  exact ⟨src, a, src', _, e, hv, hp, hb, hq, he, hi,
    build_structsLinked hv hp hb hq he hi⟩

end DeclAtlas.Dump.Source
