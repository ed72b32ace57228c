import DeclAtlas.Proofs.Dump.Names
import DeclAtlas.Proofs.Dump.Nesting
import DeclAtlas.Proofs.Shape.Templates

/-!
# Uses of class templates

A class template with arguments is registered under its name with the arguments in angle
brackets, in the scopes around it. A type that is written so is found under that name from
inside these scopes, provided the spelling is read as the name it is. A qualifier that stands
alone in an argument is read as one of the whole type and left out of the name, which then is
that of another specialization, or of none.

## Main results

* `specializationName_eq_some_iff`: the name of a template with arguments.
* `declaredTypeOf_specialization`: when such a name is read as itself, and what its uses are
  then.
* `misread_pairDump`: a use that is taken for that of another specialization.
-/

namespace DeclAtlas.Dump

open Shape (IsName IsArgument IsQualifier templated separateWords)
open Text

/-! ## Names of specializations -/

/-- The spellings of the template arguments among some nodes. -/
def templateArguments (nodes : List Node) : List (Option String) :=
  nodes.filterMap fun n =>
    match n.payload with
    | .templateArgument spelling => some spelling
    | _ => none

theorem mapM_id_eq_some_iff {α : Type} {xs : List (Option α)} {ys : List α} :
    xs.mapM id = some ys ↔ xs = ys.map some := by
  induction xs generalizing ys with
  | nil => cases ys <;> simp
  | cons x xs ih =>
      cases x with
      | none => cases ys <;> simp
      | some x =>
          rw [List.mapM_cons]
          show ((xs.mapM id).bind fun zs => some (x :: zs)) = some ys ↔ _
          rw [Option.bind_eq_some_iff]
          constructor
          · rintro ⟨zs, hzs, hys⟩
            rw [← Option.some.inj hys, ih.1 hzs]
            rfl
          · intro h
            cases ys with
            | nil => exact nomatch h
            | cons y ys =>
                obtain ⟨hx, hxs⟩ := List.cons.inj h
                exact ⟨ys, ih.2 hxs, by rw [Option.some.inj hx]⟩

/-- A template has a name with its arguments if there are some and all have spellings. -/
theorem specializationName_eq_some_iff {n m : String} {nodes : List Node} :
    specializationName? n nodes = some m ↔
      ∃ a rest, templateArguments nodes = (a :: rest).map some ∧ m = templated n a rest := by
  have hdef : specializationName? n nodes =
      ((templateArguments nodes).mapM id).bind fun arguments =>
        if arguments.isEmpty then none
        else some (n ++ "<" ++ joinWith ", " arguments ++ ">") := rfl
  rw [hdef, Option.bind_eq_some_iff]
  constructor
  · rintro ⟨arguments, hargs, hm⟩
    cases arguments with
    | nil => exact nomatch hm
    | cons a rest => exact ⟨a, rest, mapM_id_eq_some_iff.1 hargs, (Option.some.inj hm).symm⟩
  · rintro ⟨a, rest, hargs, rfl⟩
    exact ⟨a :: rest, mapM_id_eq_some_iff.2 hargs, rfl⟩

/-! ## Looking them up -/

theorem kind?_of_mem {name : String} (h : '<' ∈ name.toList) : Builtin.kind? name = none := by
  rw [Builtin.kind?, Option.map_eq_none_iff, List.find?_eq_none]
  intro p hp heq
  have hall : ∀ p ∈ Builtin.spellings, '<' ∉ p.1.toList := by decide +kernel
  exact hall p hp (of_decide_eq_true heq ▸ h)

theorem dropHead?_templated {n : String} (h : ¬"::".toList <+: n.toList) (a : String)
    (rest : List String) : dropHead? "::" (templated n a rest) = none := by
  rw [dropHead?, Option.map_eq_none_iff, Shape.toList_templated,
    Option.eq_none_iff_forall_ne_some]
  intro tail hprefix
  have htail := List.isPrefixOf?_eq_some_iff_append_eq.1 hprefix
  rcases List.append_eq_append_iff.1 htail with ⟨u, hu, -⟩ | ⟨u, hu, hv⟩
  · exact h ⟨u, hu.symm⟩
  · cases u with
    | nil => exact h ⟨[], by rw [hu, List.append_nil, List.append_nil]⟩
    | cons c u =>
        obtain ⟨rfl, -⟩ := List.cons.inj hv
        have hmem : '<' ∈ "::".toList := by
          rw [hu]
          simp
        exact absurd hmem (by decide)

theorem suffix_qualifiedIn (ancestors : List Declaration) (name : String) :
    name.toList <:+ (qualifiedIn ancestors name).toList := by
  unfold qualifiedIn qualify
  split
  · rw [String.toList_append]
    exact List.suffix_append _ _
  · exact List.suffix_refl _

/-- A name that is declared inside `ancestors` is in sight from an entry: the entry stands in
the scopes around it and maybe in further ones, where no such name is declared. -/
structure InSight (names : NameTable) (ancestors : List Declaration) (name : String)
    (e : StreamEntry) : Prop where
  scopes : ∀ a ∈ ancestors, IsScope a
  inside : ∃ inner, e.scope = scopesOf ancestors ++ inner ∧
    ∀ s ∈ inner, names.has (qualify s name) = false

variable {names : NameTable} {ancestors : List Declaration} {name n a : String}
  {e : StreamEntry} {d : Declaration} {rest : List String} {nodes : List Node}

/-- From where a registered name is in sight, it is the one that is found. -/
theorem InSight.resolve? (h : InSight names ancestors name e)
    (hglobal : dropHead? "::" name = none)
    (hhas : names.has (qualifiedIn ancestors name) = true) :
    names.resolve? name e.scope = some (qualifiedIn ancestors name) := by
  obtain ⟨inner, hscope, hinner⟩ := h.inside
  have hskip : (inner.reverse.map (qualify · name)).find? names.has = none := by
    rw [List.find?_eq_none]
    intro found hfound
    obtain ⟨s, hs, rfl⟩ := List.mem_map.1 hfound
    simp [hinner s (List.mem_reverse.1 hs)]
  have hfind : (NameTable.candidates name e.scope ++ [name]).find? names.has =
      some (qualifiedIn ancestors name) := by
    rw [NameTable.candidates, hscope, List.reverse_append, List.map_append, List.append_assoc,
      List.find?_append, hskip, Option.none_or]
    rcases List.eq_nil_or_concat ancestors with rfl | ⟨outer, o, rfl⟩
    · exact List.find?_cons_of_pos hhas
    · rw [List.concat_eq_append] at hhas ⊢
      have hname : qualifiedIn (outer ++ [o]) name = qualify o.qualifiedName name := by
        rw [qualifiedIn, List.getLast?_concat]
      rw [scopesOf_concat (h.scopes o (by simp)), List.reverse_append, hname]
      rw [hname] at hhas
      exact List.find?_cons_of_pos hhas
  rw [NameTable.resolve?, hglobal]
  dsimp only
  rw [hfind]

namespace Source

/-- A type that is spelled like a record with arguments in sight, and read as that name, is the
record. -/
theorem declaredTypeOf_of_inSight (hread : Shape.parse name = .named name false)
    (hangle : '<' ∈ name.toList) (hglobal : dropHead? "::" name = none)
    (hsight : InSight names ancestors name e)
    (hget : names.get? (qualifiedIn ancestors name) = some (.record d))
    (hspelling : e.spelling = some name) :
    declaredTypeOf names e = ⟨qualifiedIn ancestors name, false, .struct, 0⟩ := by
  have hne : name ≠ "" := by
    rintro rfl
    exact nomatch hangle
  have hhas : names.has (qualifiedIn ancestors name) = true := by
    rw [NameTable.has, hget]
    rfl
  have hkind : Builtin.kind? (qualifiedIn ancestors name) = none :=
    kind?_of_mem ((suffix_qualifiedIn ancestors name).subset hangle)
  have hlookup : lookup names e.scope name = qualifiedIn ancestors name := by
    rw [lookup, kind?_of_mem hangle, hsight.resolve? hglobal hhas]
    rfl
  rw [declaredTypeOf, hspelling]
  dsimp only
  rw [if_neg hne, hread, qualify_eq, Shape.mapNamed, hlookup]
  simp [toDeclared, namedKind, hkind, hget, Shape.isConst, Shape.dimensions]

/-- The name of a class template with its arguments is read as itself if no qualifier stands
alone in the arguments. Then a type that is spelled so is the record that is registered under
that name, wherever this is in sight. -/
theorem declaredTypeOf_specialization (hn : IsName n) (hglobal : ¬"::".toList <+: n.toList)
    (hargs : templateArguments nodes = (a :: rest).map some)
    (hok : ∀ b ∈ a :: rest, IsArgument b) :
    ∃ m, specializationName? n nodes = some m ∧
      (Shape.parse m = .named m false ↔ ∀ w ∈ separateWords a rest, ¬IsQualifier w) ∧
      ((∀ w ∈ separateWords a rest, ¬IsQualifier w) →
        ∀ names ancestors d e, InSight names ancestors m e →
          names.get? (qualifiedIn ancestors m) = some (.record d) → e.spelling = some m →
          declaredTypeOf names e = ⟨qualifiedIn ancestors m, false, .struct, 0⟩) := by
  obtain ⟨ha, hrest⟩ := List.forall_mem_cons.1 hok
  have hread := Shape.parse_templated_iff hn ha hrest
  refine ⟨templated n a rest, specializationName_eq_some_iff.2 ⟨a, rest, hargs, rfl⟩, hread, ?_⟩
  intro hfree names ancestors d e hsight hget hspelling
  have hangle : '<' ∈ (templated n a rest).toList := by simp [Shape.toList_templated]
  have hhead : dropHead? "::" (templated n a rest) = none := dropHead?_templated hglobal a rest
  exact declaredTypeOf_of_inSight (hread.2 hfree) hangle hhead hsight hget hspelling

/-- A template with some arguments, as it stands in a dump. -/
def specializationValue (arguments : List String) : Json.Value :=
  .record [("kind", .text "ClassTemplateSpecializationDecl"), ("name", .text "Pair"),
    ("tagUsed", .text "struct"), ("completeDefinition", .bool true),
    ("inner", .array (arguments.map fun a =>
      .record [("kind", .text "TemplateArgument"), ("type", .record [("qualType", .text a)])]))]

/-- Fields that are typed by templates with a qualified argument. -/
def pairDump : Json.Value :=
  .record [("kind", .text "TranslationUnitDecl"), ("inner", .array [
    .record [("kind", .text "NamespaceDecl"), ("name", .text "N"), ("inner", .array [
      .record [("kind", .text "ClassTemplateDecl"), ("name", .text "Pair"),
        ("inner", .array [specializationValue ["int", "char *"],
          specializationValue ["int", "const char *"],
          specializationValue ["const int", "char *"]])],
      .record [("kind", .text "CXXRecordDecl"), ("name", .text "Use"),
        ("tagUsed", .text "struct"), ("completeDefinition", .bool true),
        ("inner", .array [
          .record [("kind", .text "FieldDecl"), ("name", .text "p"),
            ("type", .record [("qualType", .text "Pair<int, const char *>")])],
          .record [("kind", .text "FieldDecl"), ("name", .text "q"),
            ("type", .record [("qualType", .text "Pair<const int, char *>")])]])]])]])]

/-- What stands inside a template with these arguments. -/
def argumentNodes (arguments : List String) : List Node :=
  arguments.map fun a => .mk (.templateArgument (some a)) []

theorem declaredTypeOf_specialization_pairDump : ∃ src, ofJson? "pair.hpp" pairDump = some src ∧
    specializationName? "Pair" (argumentNodes ["const int", "char *"]) =
      some "Pair<const int, char *>" ∧
    Shape.parse "Pair<const int, char *>" = .named "Pair<const int, char *>" false ∧
    ∃ r ∈ src.cursor.toList, ∃ e ∈ src.cursor.toList,
      InSight src.names r.ancestors "Pair<const int, char *>" e ∧
      src.names.get? (qualifiedIn r.ancestors "Pair<const int, char *>") =
        some (.record r.declaration) ∧
      declaredTypeOf src.names e = ⟨r.declaration.qualifiedName, false, .struct, 0⟩ := by
  have hall : ∃ src ∈ ofJson? "pair.hpp" pairDump,
      ∃ r ∈ src.cursor.toList, ∃ e ∈ src.cursor.toList,
        (∀ a ∈ r.ancestors, a.kind = .namespaceDecl) ∧
        (e.scope = scopesOf r.ancestors ++ ["N::Use"] ∧
          ∀ s ∈ ["N::Use"], src.names.has (Text.qualify s "Pair<const int, char *>") = false) ∧
        src.names.get? (qualifiedIn r.ancestors "Pair<const int, char *>") =
          some (.record r.declaration) ∧
        qualifiedIn r.ancestors "Pair<const int, char *>" = r.declaration.qualifiedName ∧
        e.spelling = some "Pair<const int, char *>" := by
    decide +kernel
  obtain ⟨src, hv, r, hr, e, he, hscopes, hinside, hget, hname, hspelling⟩ := hall
  have hn : IsName "Pair" := by decide +kernel
  have hargs : templateArguments (argumentNodes ["const int", "char *"]) =
      ["const int", "char *"].map some := by decide
  have hok : ∀ b ∈ ["const int", "char *"], IsArgument b := by decide +kernel
  have hfree : ∀ w ∈ separateWords "const int" ["char *"], ¬IsQualifier w := by decide +kernel
  obtain ⟨m, hm, hread, hused⟩ := declaredTypeOf_specialization hn (by decide) hargs hok
  obtain rfl : m = "Pair<const int, char *>" := by
    have hm' : specializationName? "Pair" (argumentNodes ["const int", "char *"]) =
        some "Pair<const int, char *>" := by decide
    exact Option.some.inj (hm.symm.trans hm')
  have hsight : InSight src.names r.ancestors "Pair<const int, char *>" e :=
    ⟨fun a ha => .inl (hscopes a ha), ["N::Use"], hinside⟩
  have hd := hused hfree src.names r.ancestors r.declaration e hsight hget hspelling
  exact ⟨src, hv, hm, hread.2 hfree, r, hr, e, he, hsight, hget, hname ▸ hd⟩

/-- A `const` in the second argument is read as one of the whole type: a field of that
specialization is taken for a const object of another one. -/
theorem misread_pairDump : ∃ src, ofJson? "pair.hpp" pairDump = some src ∧
    IsName "Pair" ∧ (∀ b ∈ ["int", "const char *"], IsArgument b) ∧
    specializationName? "Pair" (argumentNodes ["int", "const char *"]) =
      some "Pair<int, const char *>" ∧
    Shape.parse "Pair<int, const char *>" = .named "Pair<int, char *>" true ∧
    ∃ r ∈ src.cursor.toList, ∃ e ∈ src.cursor.toList,
      (∀ a ∈ r.ancestors, a.kind = .namespaceDecl) ∧
      e.scope = scopesOf r.ancestors ++ ["N::Use"] ∧
      src.names.get? (qualifiedIn r.ancestors "Pair<int, const char *>") =
        some (.record r.declaration) ∧
      e.spelling = some "Pair<int, const char *>" ∧
      declaredTypeOf src.names e = ⟨"const N::Pair<int, char *>", true, .struct, 0⟩ := by
  show ∃ src ∈ ofJson? "pair.hpp" pairDump, _
  decide +kernel

end Source

end DeclAtlas.Dump
