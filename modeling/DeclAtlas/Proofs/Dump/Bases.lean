import DeclAtlas.Proofs.Dump.Names
import DeclAtlas.Proofs.Dump.Nesting
import DeclAtlas.Proofs.Dump.StopEntries
import DeclAtlas.Proofs.Survey.Members
import DeclAtlas.Proofs.Text.Segments

/-!
# Bases of records

A base is named when all names are known. It is looked up in the scopes of its entry, and
the innermost of these is the record itself; so a type inside the record that is called like
the base comes before what the base was written for. Otherwise the base is the record that
its name refers to from around the record, by its qualified name.

The identifier of a base is cut from its qualified name. It is that of the record as long as
there is no `::` in it, as there may be in template arguments.

## Main results

* `exists_stop_of_base`: the entry of a base comes of a record that is written with it.
* `resolve?_concat`: what a further scope does to a lookup.
* `exists_continues`: registered names are those of nested declarations.
* `Source.base_named`: how bases are named, and which parents they become.
* `Source.base_misnamed`: a base that a type inside its record hides.
-/

namespace DeclAtlas.Dump

open Text

variable {input : String} {root : Node} {e : StreamEntry}

/-! ## Bases on the stream -/

/-- A record that is written with a base, and the entry of that base. -/
structure HasBase (input : String) (v : Stop) (R : Declaration) (e : StreamEntry) : Prop where
  opened : ∃ access, opened? input v.ancestors v.node = some (R, access)
  record : R.kind.isStructure = true
  base : ∃ b ∈ v.node.payload.bases, WrittenBase (v.ancestors ++ [R]) b e

@[simp] theorem spelling_nameBase (names : NameTable) (e : StreamEntry) :
    (nameBase names e).spelling = e.spelling := by
  unfold nameBase
  split <;> rfl

theorem WrittenBase.nameBase {inside : List Declaration} {b : Base}
    (hw : WrittenBase inside b e) (names : NameTable) :
    WrittenBase inside b (nameBase names e) where
  kind := (kind_nameBase ..).trans hw.kind
  ancestors := (ancestors_nameBase ..).trans hw.ancestors
  spelling := (spelling_nameBase ..).trans hw.spelling
  written := hw.written

/-- The entry of a base comes of a record that is written with it. -/
theorem exists_stop_of_base (he : e ∈ (Walk.ofTree input root).entries.toList)
    (hk : e.declaration.kind = .baseSpecifier) :
    ∃ v ∈ Stop.ofTree input root, ∃ R, HasBase input v R e := by
  rw [entries_ofTree] at he
  obtain ⟨v, hv, he⟩ := List.mem_flatMap.1 he
  cases puts_of_mem he with
  | scope ho hd _ =>
      have hscope := kind_of_opened ho
      rw [← hd, hk] at hscope
      exact absurd hscope (by decide)
  | base ho hr hb => exact ⟨v, hv, _, ⟨_, ho⟩, hr, hb⟩
  | field _ hf _ => exact absurd (hf.symm.trans hk) (by decide)
  | function _ hf =>
      rcases hf with ⟨hf, -⟩ | hw
      · rw [hk] at hf
        exact absurd hf (by decide)
      · exact nomatch hk.symm.trans hw.kind

/-! ## Looking a base up -/

/-- A name that a record `R` hides: one of a type inside it, unless it is looked up from the
outside in. -/
def Hides (names : NameTable) (R : Declaration) (name : String) : Prop :=
  dropHead? "::" name = none ∧ names.has (qualify R.qualifiedName name) = true

instance (names : NameTable) (R : Declaration) (name : String) :
    Decidable (Hides names R name) :=
  inferInstanceAs (Decidable (_ ∧ _))

/-- A record is looked into before the scopes around it. -/
theorem resolve?_concat (names : NameTable) (R : Declaration) (name : String)
    (scope : List String) :
    names.resolve? name (scope ++ [R.qualifiedName]) =
      if Hides names R name then some (qualify R.qualifiedName name)
      else names.resolve? name scope := by
  have hfirst : NameTable.candidates name (scope ++ [R.qualifiedName]) =
      qualify R.qualifiedName name :: NameTable.candidates name scope := by
    unfold NameTable.candidates
    rw [List.reverse_append, List.reverse_singleton, List.singleton_append, List.map_cons]
  unfold NameTable.resolve?
  rw [hfirst, List.cons_append, List.find?_cons]
  by_cases hh : Hides names R name
  · rw [if_pos hh, hh.1, hh.2]
  · rw [if_neg hh]
    cases hg : dropHead? "::" name with
    | some global => rfl
    | none =>
        have hnot : names.has (qualify R.qualifiedName name) = false :=
          eq_false_of_ne_true fun hhas => hh ⟨hg, hhas⟩
        rw [hnot]

/-- Registered names are those of nested declarations. -/
theorem exists_continues {q : String} {meaning : NameMeaning}
    (h : (Walk.ofTree input root).names.get? q = some meaning) :
    meaning.declaration.qualifiedName = q ∧ ∃ outer, Continues outer meaning.declaration := by
  have hall : (Walk.ofTree input root).names.All fun name meaning =>
      meaning.declaration.qualifiedName = name ∧
        ∃ outer, Continues outer meaning.declaration := by
    refine names_walk (fun n _ ancestors name meaning hreg => ?_) (fun p hp => nomatch hp)
    cases hreg <;> exact ⟨rfl, ancestors, continues_declare ..⟩
  exact hall _ (NameTable.mem_of_get? h)

/-! ## How bases are named -/

namespace Source

variable {R d : Declaration} {name q : String}

/-- How the base `e` of the record `R` is named, if the innermost name `name` that is written
for it refers to the record `d` of the name `q` from around `R`. -/
structure BaseNamed (names : NameTable) (R : Declaration) (name q : String)
    (d : Declaration) (e : StreamEntry) : Prop where
  /-- A name inside `R` comes first. -/
  qualifiedName : e.declaration.qualifiedName =
    if Hides names R name then Text.qualify R.qualifiedName name else q
  /-- The identifier is that of the record, if there is no `::` in it. -/
  identifier : ¬Hides names R name → ¬"::".toList <:+: ':' :: d.identifier.toList →
    e.declaration.identifier = d.identifier
  /-- It is cut short if there is one. -/
  cut : ¬Hides names R name → "::".toList <:+: d.identifier.toList →
    e.declaration.identifier ≠ d.identifier

/-- What becomes of a base in an atlas: the structure of its name is a parent of `R`. -/
def IsParent (R : Declaration) (e : StreamEntry) (a : Atlas) : Prop :=
  ∃ s p, a.structure? (a.findStructure R.qualifiedName) = some s ∧
    s.qualifiedName = R.qualifiedName ∧
    a.findStructure e.declaration.qualifiedName ∈ s.parents ∧
    a.structure? (a.findStructure e.declaration.qualifiedName) = some p ∧
    p.qualifiedName = e.declaration.qualifiedName

theorem nameBase_declaration (names : NameTable) {written : String}
    (hk : e.declaration.kind = .baseSpecifier) (hs : e.spelling = some written)
    (hn : (Shape.parse written).named? = some name) :
    (nameBase names e).declaration.qualifiedName =
        (names.resolve? name e.scope).getD name ∧
      (nameBase names e).declaration.identifier =
        lastSegment ((names.resolve? name e.scope).getD name) := by
  unfold nameBase
  rw [if_pos hk]
  dsimp only
  rw [hs, Option.getD_some, hn, Option.getD_some]
  exact ⟨rfl, rfl⟩

/-- The last segment of the name of a nested declaration. -/
theorem lastSegment_of_continues {outer : List Declaration} (hc : Continues outer d) :
    (¬"::".toList <:+: ':' :: d.identifier.toList →
      lastSegment d.qualifiedName = d.identifier) ∧
    ("::".toList <:+: d.identifier.toList → lastSegment d.qualifiedName ≠ d.identifier) := by
  unfold Continues at hc
  cases ho : outer.getLast? with
  | none =>
      rw [ho] at hc
      rw [hc]
      exact ⟨fun h => lastSegment_eq_self fun hin => h (hin.trans (List.suffix_cons ..).isInfix),
        lastSegment_ne_self⟩
  | some o =>
      rw [ho] at hc
      rw [hc]
      exact ⟨fun h => lastSegment_qualify h _, fun h => lastSegment_qualify_ne h _⟩

theorem baseNamed_of_hasBase {v : Stop} {written : String} (hb : HasBase input v R e)
    (hk : e.declaration.kind = .baseSpecifier) (hs : e.spelling = some written)
    (hn : (Shape.parse written).named? = some name)
    (hq : (ofTree input root).names.resolve? name (scopesOf v.ancestors) = some q)
    (hd : (ofTree input root).names.get? q = some (.record d)) :
    BaseNamed (ofTree input root).names R name q d (nameBase (ofTree input root).names e) := by
  obtain ⟨b, -, hw⟩ := hb.base
  obtain ⟨hqualified, hidentifier⟩ :=
    nameBase_declaration (ofTree input root).names hk hs hn
  have hscope : e.scope = scopesOf v.ancestors ++ [R.qualifiedName] := by
    rw [StreamEntry.scope, hw.ancestors, scopesOf_concat (.inr hb.record)]
  rw [hscope, resolve?_concat] at hqualified hidentifier
  have hplain : ¬Hides (ofTree input root).names R name →
      (nameBase (ofTree input root).names e).declaration.identifier = lastSegment q := by
    intro hnot
    rw [hidentifier, if_neg hnot, hq, Option.getD_some]
  obtain ⟨hname, outer, hc⟩ := exists_continues hd
  obtain ⟨hsame, hcut⟩ := lastSegment_of_continues hc
  rw [show (NameMeaning.record d).declaration = d from rfl] at hname hsame hcut
  rw [hname] at hsame hcut
  refine ⟨?_, ?_, ?_⟩
  · rw [hqualified]
    by_cases hh : Hides (ofTree input root).names R name
    · rw [if_pos hh, if_pos hh, Option.getD_some]
    · rw [if_neg hh, if_neg hh, hq, Option.getD_some]
  · intro hnot hcolon
    rw [hplain hnot]
    exact hsame hcolon
  · intro hnot hcolon
    rw [hplain hnot]
    exact hcut hcolon

/-- A base that is read becomes a parent of its record. -/
theorem isParent_of_reached {src src' : Source} {outer : List Declaration}
    (he : e ∈ src.reached) (hk : e.declaration.kind = .baseSpecifier)
    (ha : e.ancestors = outer ++ [R]) (hr : R.kind.isStructure = true) {o : SurveyOptions}
    {fuel : Nat} {id : ArenaId} {a : Atlas}
    (hb : Survey.build (.standard o) fuel src id = some (a, src')) : IsParent R e a := by
  obtain ⟨uses, hruns⟩ := Survey.runs_of_build hb
  have hmembers := hruns.membersExact (delivers_reached src)
  have hitem : e.item src.names ∈ src.reached.map (·.item src.names) :=
    List.mem_map_of_mem he
  have howner : Survey.owner? (e.item src.names).ancestors = some R.qualifiedName := by
    show Survey.owner? e.ancestors = _
    rw [ha]
    simp [Survey.owner?, Option.filter, hr]
  obtain ⟨s, hs, hname⟩ := hmembers.owned _ hitem _ howner (Or.inr (Or.inl hk))
  have hparent : a.findStructure e.declaration.qualifiedName ∈ s.parents := by
    rw [hmembers.parents _ s hs]
    refine List.mem_filterMap.2 ⟨_, hitem, ?_⟩
    rw [Survey.memberOf?, hname, if_pos ⟨hk, howner⟩]
    rfl
  have hstructure := (hruns.integrity.structuresClosed _ s hs).parents _ hparent
  obtain ⟨p, hp⟩ := Option.isSome_iff_exists.1 hstructure
  exact ⟨s, p, hs, hname, hparent, hp, hruns.integrity.structureOfName _ p hp⟩

/-- Every entry of a base comes of a record `R` that is written with it. If its innermost name
refers to a record from around `R`, the base is named after that record, and becomes the
parent of `R` when it is read; unless a name inside `R` hides it. -/
theorem base_named {input : String} {root : Node} {e : StreamEntry}
    (he : e ∈ (ofTree input root).cursor.toList) (hk : e.declaration.kind = .baseSpecifier) :
    ∃ v ∈ Stop.ofTree input root, ∃ R, HasBase input v R e ∧
      (∀ written name q d, e.spelling = some written →
        (Shape.parse written).named? = some name →
        (ofTree input root).names.resolve? name (scopesOf v.ancestors) = some q →
        (ofTree input root).names.get? q = some (.record d) →
        BaseNamed (ofTree input root).names R name q d e) ∧
      ∀ (o : SurveyOptions) (fuel : Nat) (id : ArenaId) (a : Atlas) (src' : Source),
        Survey.build (.standard o) fuel (ofTree input root) id = some (a, src') →
        e ∈ (ofTree input root).reached → IsParent R e a := by
  have hmap : e ∈ (Walk.ofTree input root).entries.toList.map
      (nameBase (Walk.ofTree input root).names) := by
    rw [← Array.toList_map]
    exact he
  obtain ⟨x, hx, rfl⟩ := List.mem_map.1 hmap
  rw [kind_nameBase] at hk
  obtain ⟨v, hv, R, hbase⟩ := exists_stop_of_base hx hk
  obtain ⟨b, hb, hw⟩ := hbase.base
  refine ⟨v, hv, R, ⟨hbase.opened, hbase.record, b, hb, hw.nameBase _⟩, ?_, ?_⟩
  · intro written name q d hs hn hq hd
    rw [spelling_nameBase] at hs
    exact baseNamed_of_hasBase hbase hk hs hn hq hd
  · intro o fuel id a src' hbuild hreached
    have hnamed := hw.nameBase (Walk.ofTree input root).names
    exact isParent_of_reached hreached hnamed.kind hnamed.ancestors hbase.record hbuild

/-! ### A base that is hidden -/

/-- A struct as a compiler dumps it, with the bases written for it. -/
def structDump (kind name : String) (bases : List String) (inner : List Json.Value) :
    Json.Value :=
  .record [("kind", .text kind), ("name", .text name), ("tagUsed", .text "struct"),
    ("completeDefinition", .bool true),
    ("bases", .array (bases.map fun b =>
      .record [("access", .text "public"), ("type", .record [("qualType", .text b)])])),
    ("inner", .array inner)]

/-- Structs with bases: `P` has a base `B` and so has `R`, which has a struct `B` inside it;
`Q` has a base whose template argument is a qualified name. -/
def basesDump : Json.Value :=
  .record [("kind", .text "TranslationUnitDecl"), ("inner", .array [
    structDump "CXXRecordDecl" "B" [] [],
    structDump "CXXRecordDecl" "P" ["B"] [],
    structDump "CXXRecordDecl" "R" ["B"] [structDump "CXXRecordDecl" "B" [] []],
    structDump "ClassTemplateSpecializationDecl" "Box" [] [
      .record [("kind", .text "TemplateArgument"),
        ("type", .record [("qualType", .text "geo::Point")])]],
    structDump "CXXRecordDecl" "Q" ["Box<geo::Point>"] []])]

theorem base_named_basesDump : ∃ root e, Node.ofJson? basesDump = some root ∧
    e ∈ (ofTree "base.hpp" root).cursor.toList ∧ e.declaration.kind = .baseSpecifier ∧
    e.declaration.qualifiedName = "B" ∧
    ∃ v ∈ Stop.ofTree "base.hpp" root, ∃ R, HasBase "base.hpp" v R e ∧
      (∀ written name q d, e.spelling = some written →
        (Shape.parse written).named? = some name →
        (ofTree "base.hpp" root).names.resolve? name (scopesOf v.ancestors) = some q →
        (ofTree "base.hpp" root).names.get? q = some (.record d) →
        BaseNamed (ofTree "base.hpp" root).names R name q d e) ∧
      ∀ (o : SurveyOptions) (fuel : Nat) (id : ArenaId) (a : Atlas) (src' : Source),
        Survey.build (.standard o) fuel (ofTree "base.hpp" root) id = some (a, src') →
        e ∈ (ofTree "base.hpp" root).reached → IsParent R e a := by
  have hall : ∃ root ∈ Node.ofJson? basesDump,
      ∃ e ∈ (ofTree "base.hpp" root).cursor.toList,
        e.declaration.kind = .baseSpecifier ∧ e.declaration.qualifiedName = "B" := by
    decide +kernel
  obtain ⟨root, hroot, e, he, hk, hq⟩ := hall
  exact ⟨root, e, hroot, he, hk, hq, base_named he hk⟩

/-- The base `B` of `R` is looked up inside `R` and becomes `R::B`, although around `R` the
name refers to `B`; and the identifier of the base `Box<geo::Point>` is cut to `Point>`. -/
theorem base_misnamed : ∃ src, ofJson? "base.hpp" basesDump = some src ∧
    (∃ e ∈ src.cursor.toList, ∃ R d, e.declaration.kind = .baseSpecifier ∧
      e.ancestors = [R] ∧ R.qualifiedName = "R" ∧ e.spelling = some "B" ∧
      (Shape.parse "B").named? = some "B" ∧ src.names.resolve? "B" (scopesOf []) = some "B" ∧
      src.names.get? "B" = some (.record d) ∧ e.declaration.qualifiedName = "R::B") ∧
    ∃ e ∈ src.cursor.toList, ∃ R d, e.declaration.kind = .baseSpecifier ∧
      e.ancestors = [R] ∧ R.qualifiedName = "Q" ∧ e.spelling = some "Box<geo::Point>" ∧
      (Shape.parse "Box<geo::Point>").named? = some "Box<geo::Point>" ∧
      src.names.resolve? "Box<geo::Point>" (scopesOf []) = some "Box<geo::Point>" ∧
      src.names.get? "Box<geo::Point>" = some (.record d) ∧
      d.identifier = "Box<geo::Point>" ∧ e.declaration.identifier = "Point>" := by
  have hall : ∃ src ∈ ofJson? "base.hpp" basesDump,
      (∃ e ∈ src.cursor.toList, e.declaration.kind = .baseSpecifier ∧
        e.ancestors = [⟨⟨"base.hpp", 0, 0⟩, "R", "R", .structDecl⟩] ∧
        e.spelling = some "B" ∧ (Shape.parse "B").named? = some "B" ∧
        src.names.resolve? "B" (scopesOf []) = some "B" ∧
        src.names.get? "B" = some (.record ⟨⟨"base.hpp", 0, 0⟩, "B", "B", .structDecl⟩) ∧
        e.declaration.qualifiedName = "R::B") ∧
      ∃ e ∈ src.cursor.toList, e.declaration.kind = .baseSpecifier ∧
        e.ancestors = [⟨⟨"base.hpp", 0, 0⟩, "Q", "Q", .structDecl⟩] ∧
        e.spelling = some "Box<geo::Point>" ∧
        (Shape.parse "Box<geo::Point>").named? = some "Box<geo::Point>" ∧
        src.names.resolve? "Box<geo::Point>" (scopesOf []) = some "Box<geo::Point>" ∧
        src.names.get? "Box<geo::Point>" = some (.record
          ⟨⟨"base.hpp", 0, 0⟩, "Box<geo::Point>", "Box<geo::Point>", .structDecl⟩) ∧
        e.declaration.identifier = "Point>" := by
    decide +kernel
  obtain ⟨src, hsrc, ⟨e, he, hk, ha, hs, hn, hq, hd, hname⟩,
    f, hf, hfk, hfa, hfs, hfn, hfq, hfd, hfname⟩ := hall
  exact ⟨src, hsrc, ⟨e, he, _, _, hk, ha, rfl, hs, hn, hq, hd, hname⟩,
    f, hf, _, _, hfk, hfa, rfl, hfs, hfn, hfq, hfd, rfl, hfname⟩

end Source

end DeclAtlas.Dump
