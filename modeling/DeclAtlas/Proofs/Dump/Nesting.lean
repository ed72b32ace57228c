import DeclAtlas.Dump.Source
import DeclAtlas.Proofs.Dump.Walking
import Mathlib.Data.List.Infix

/-!
# Nested declarations

Every entry of a dump carries the declarations it stands inside. `Nested` says when they can
be trusted: each continues the name of the one around it, a function is only ever around its
own parameters, and each was on the stream before the entry, or would have been were it not
from a system header.

A walk adds to the stream at its end only. So what was said of the declarations around a
node stays true while the nodes inside it are walked.

## Main results

* `walk_extends`: what a walk puts on a stream is nested.
* `Source.nested_of_ofTree`: every entry of a dump is nested.
-/

namespace DeclAtlas.Dump

open Text

variable {input : String} {root : Node}

/-! ## Declarations around an entry -/

/-- The name of `d` continues the name of the innermost of `outer`. -/
def Continues (outer : List Declaration) (d : Declaration) : Prop :=
  d.qualifiedName =
    match outer.getLast? with
    | some o => o.qualifiedName ++ "::" ++ d.identifier
    | none => d.identifier

/-- `Opens input outer n head d`: inside `outer`, the node `n` with `head` declares `d`, and
other declarations can stand inside it. -/
inductive Opens (input : String) (outer : List Declaration) :
    Node → Head → Declaration → Prop where
  | namespaceDecl (head : Head) (nodes : List Node) :
      Opens input outer (.mk (.namespaceDecl head) nodes) head
        (declare input outer .namespaceDecl head (head.name.getD Shape.anonymousNamespace))
  | record {head : Head} {facts : RecordFacts} {nodes : List Node} {name : String}
      {kind : DeclarationKind} (hn : head.name = some name) (hi : head.isImplicit = false)
      (hk : Walk.recordKind? facts.tag = some kind) :
      Opens input outer (.mk (.record head facts) nodes) head (declare input outer kind head name)
  | specialization {head : Head} {facts : RecordFacts} {nodes : List Node} {name : String}
      {kind : DeclarationKind} (hn : head.name.bind (specializationName? · nodes) = some name)
      (hk : Walk.recordKind? facts.tag = some kind) :
      Opens input outer (.mk (.specialization head facts) nodes) head
        (declare input outer kind head name)
  | function {role : FunctionRole} {head : Head} {facts : FunctionFacts} {nodes : List Node}
      {name : String} {kind : DeclarationKind} (hn : head.name = some name)
      (hi : head.isImplicit = false) (hk : kind = .method ∨ kind = .function) :
      Opens input outer (.mk (.function role head facts) nodes) head
        (declare input outer kind head name)

/-- Some node of the tree declares `d` inside `outer`; it is on the stream already, or off it
as it is from a system header. -/
def Met (input : String) (root : Node) (before : List StreamEntry)
    (outer : List Declaration) (d : Declaration) : Prop :=
  ∃ n head, n.Within root ∧ Opens input outer n head d ∧
    ((∃ e ∈ before, e.declaration = d ∧ e.ancestors = outer) ∨
      isSystem input head.location = true)

/-- Each of nested declarations continues the name of those around it, and was met there. -/
def Stacked (input : String) (root : Node) (before : List StreamEntry)
    (ancestors : List Declaration) : Prop :=
  ∀ outer d inner, ancestors = outer ++ d :: inner →
    Continues outer d ∧ Met input root before outer d

/-- An entry whose ancestors can be trusted, on a stream that begins with `before`. -/
structure Nested (input : String) (root : Node) (before : List StreamEntry)
    (e : StreamEntry) : Prop where
  /-- The names of the ancestors form a chain, and each was met earlier. -/
  stacked : Stacked input root before e.ancestors
  /-- The entry continues the chain. -/
  continues : e.declaration.kind ≠ .baseSpecifier → Continues e.ancestors e.declaration
  /-- The scopes are the ancestors that are scopes. -/
  scope : e.scope = (e.ancestors.filter fun d =>
    d.kind = .namespaceDecl ∨ d.kind = .structDecl ∨ d.kind = .classDecl).map (·.qualifiedName)
  /-- A function is innermost, and only around its parameters. -/
  functions : ∀ outer d inner, e.ancestors = outer ++ d :: inner →
    d.kind = .method ∨ d.kind = .function → inner = [] ∧ e.declaration.kind = .parameter
  /-- The entry does not stand for the end of the stream. -/
  isPlaced : e.declaration.isEmpty = false

/-! ### Ancestors -/

/-- An entry with another after it is one of the former, or it is the last. -/
private theorem concat_eq_append_cons {α : Type} {outer inner ds : List α} {d x : α}
    (h : ds ++ [x] = outer ++ d :: inner) :
    (∃ inner', inner = inner' ++ [x] ∧ ds = outer ++ d :: inner') ∨
      (inner = [] ∧ outer = ds ∧ d = x) := by
  rcases List.eq_nil_or_concat inner with rfl | ⟨inner', y, rfl⟩
  · obtain ⟨hds, hx⟩ := List.append_inj' h rfl
    exact .inr ⟨rfl, hds.symm, (List.cons.inj hx).1.symm⟩
  · rw [List.concat_eq_append, ← List.cons_append, ← List.append_assoc] at h
    obtain ⟨hds, hx⟩ := List.append_inj' h rfl
    exact .inl ⟨inner', by rw [List.concat_eq_append, (List.cons.inj hx).1], hds⟩

theorem continues_declare (outer : List Declaration) (kind : DeclarationKind) (head : Head)
    (name : String) : Continues outer (declare input outer kind head name) := by
  unfold Continues declare qualifiedIn
  cases outer.getLast? <;> rfl

theorem Stacked.nil (before : List StreamEntry) : Stacked input root before [] := by
  intro outer d inner h
  simp at h

theorem Stacked.concat {before : List StreamEntry} {ancestors : List Declaration}
    {d : Declaration} (h : Stacked input root before ancestors)
    (hc : Continues ancestors d) (hm : Met input root before ancestors d) :
    Stacked input root before (ancestors ++ [d]) := by
  intro outer x inner heq
  rcases concat_eq_append_cons heq with ⟨inner', -, hin⟩ | ⟨-, rfl, rfl⟩
  · exact h outer x inner' hin
  · exact ⟨hc, hm⟩

/-- What was met stays met as the stream goes on. -/
theorem Stacked.mono {before after : List StreamEntry} {ancestors : List Declaration}
    (h : Stacked input root before ancestors) (hp : before <+: after) :
    Stacked input root after ancestors := by
  intro outer d inner heq
  obtain ⟨hc, n, head, hn, ho, hm⟩ := h outer d inner heq
  refine ⟨hc, n, head, hn, ho, hm.imp_left ?_⟩
  rintro ⟨e, he, hd⟩
  exact ⟨e, hp.subset he, hd⟩

/-- Is this a namespace, struct or class? -/
def IsScope (d : Declaration) : Prop := d.kind = .namespaceDecl ∨ d.kind.isStructure = true

theorem IsScope.not_function {d : Declaration} (h : IsScope d) :
    ¬(d.kind = .method ∨ d.kind = .function) := by
  rintro (hk | hk) <;> simp [IsScope, hk, DeclarationKind.isStructure] at h

theorem place_ne_empty (hi : input ≠ "") (l : Option Location) :
    (place input l).isEmpty = false := by
  unfold place Location.isEmpty
  cases l with
  | none => simpa using hi
  | some l =>
      by_cases hf : l.file = ""
      · simpa [hf] using hi
      · simp [hf]

theorem scopesOf_eq (ancestors : List Declaration) :
    scopesOf ancestors = (ancestors.filter fun d =>
      d.kind = .namespaceDecl ∨ d.kind = .structDecl ∨ d.kind = .classDecl).map
        (·.qualifiedName) := by
  unfold scopesOf
  congr 2
  funext d
  cases d.kind <;> rfl

theorem scopesOf_concat {ancestors : List Declaration} {a : Declaration} (ha : IsScope a) :
    scopesOf (ancestors ++ [a]) = scopesOf ancestors ++ [a.qualifiedName] := by
  have hkeep : (decide (a.kind = .namespaceDecl) || a.kind.isStructure) = true := by
    simpa [IsScope] using ha
  simp [scopesOf, hkeep]

/-- What is placed in a file and stands inside scopes only is nested. -/
private theorem Nested.of_scopes {before : List StreamEntry} {e : StreamEntry}
    (hst : Stacked input root before e.ancestors) (hsc : ∀ d ∈ e.ancestors, IsScope d)
    (hc : e.declaration.kind ≠ .baseSpecifier → Continues e.ancestors e.declaration)
    (hp : e.declaration.isEmpty = false) : Nested input root before e where
  stacked := hst
  continues := hc
  scope := scopesOf_eq e.ancestors
  functions := by
    intro outer d inner heq hk
    exact absurd hk (hsc d (by simp [heq])).not_function
  isPlaced := hp

/-- A parameter is nested inside its function. -/
private theorem Nested.of_parameter {before : List StreamEntry} {e : StreamEntry}
    {outer : List Declaration} {f : Declaration} (ha : e.ancestors = outer ++ [f])
    (hst : Stacked input root before e.ancestors) (hsc : ∀ d ∈ outer, IsScope d)
    (hk : e.declaration.kind = .parameter) (hc : Continues e.ancestors e.declaration)
    (hp : e.declaration.isEmpty = false) : Nested input root before e where
  stacked := hst
  continues := fun _ => hc
  scope := scopesOf_eq e.ancestors
  functions := by
    intro around d inner heq hd
    rw [ha] at heq
    rcases concat_eq_append_cons heq with ⟨inner', -, hin⟩ | ⟨hnil, -, -⟩
    · exact absurd hd (hsc d (by simp [hin])).not_function
    · exact ⟨hnil, hk⟩
  isPlaced := hp

/-! ## Streams -/

/-- A stream all of whose entries are nested. -/
inductive NestedStream (input : String) (root : Node) : List StreamEntry → Prop where
  | nil : NestedStream input root []
  | concat {before : List StreamEntry} {e : StreamEntry}
      (hs : NestedStream input root before) (he : Nested input root before e) :
      NestedStream input root (before ++ [e])

theorem NestedStream.nested {before after : List StreamEntry} {e : StreamEntry}
    {entries : List StreamEntry} (h : NestedStream input root entries)
    (heq : entries = before ++ e :: after) : Nested input root before e := by
  induction h generalizing after with
  | nil => simp at heq
  | concat hs he ih =>
      rcases concat_eq_append_cons heq with ⟨after', -, hin⟩ | ⟨-, rfl, rfl⟩
      · exact ih hin
      · exact he

/-- The second walk goes on with the stream of the first, and all it adds is nested. -/
structure Extends (input : String) (root : Node) (w w' : Walk) : Prop where
  grows : w.entries.toList <+: w'.entries.toList
  nested : NestedStream input root w.entries.toList → NestedStream input root w'.entries.toList

theorem Extends.of_entries_eq {w w' : Walk} (h : w'.entries = w.entries) :
    Extends input root w w' :=
  ⟨by rw [h], by rw [h]; exact id⟩

theorem Extends.refl (w : Walk) : Extends input root w w := .of_entries_eq rfl

theorem Extends.trans {w₁ w₂ w₃ : Walk} (h : Extends input root w₁ w₂)
    (h' : Extends input root w₂ w₃) : Extends input root w₁ w₃ :=
  ⟨h.grows.trans h'.grows, h'.nested ∘ h.nested⟩

/-- The access in force does not matter. -/
theorem Extends.within {w : Walk} {access : Visibility} {body : Walk → Walk}
    (h : ∀ w', w'.entries = w.entries → Extends input root w' (body w')) :
    Extends input root w (w.within access body) :=
  ⟨(h { w with access := access } rfl).grows, (h { w with access := access } rfl).nested⟩

theorem Extends.push {w : Walk} {head : Head} {e : StreamEntry}
    (he : Nested input root w.entries.toList e) :
    Extends input root w (w.push input head e) := by
  unfold Walk.push
  split
  · exact .refl w
  · refine ⟨?_, fun hs => ?_⟩ <;> rw [Array.toList_push]
    · exact List.prefix_append _ _
    · exact hs.concat he

/-- A run of pushes extends a stream if each of them does. -/
theorem Extends.foldl {α : Type} {step : Walk → α → Walk} {ancestors : List Declaration}
    (hstep : ∀ w x, Stacked input root w.entries.toList ancestors →
      Extends input root w (step w x)) (xs : List α) (w : Walk)
    (hst : Stacked input root w.entries.toList ancestors) :
    Extends input root w (xs.foldl step w) := by
  induction xs generalizing w with
  | nil => exact .refl w
  | cons x xs ih =>
      have hx := hstep w x hst
      exact hx.trans (ih (step w x) (hst.mono hx.grows))

/-! ## Steps -/

section Steps

variable {w : Walk} {ancestors : List Declaration} {head : Head} {n : Node}

/-- What opens a scope extends the stream, and is met by all that is inside it. -/
private theorem extends_open (hi : input ≠ "") (hn : n.Within root)
    (hsc : ∀ d ∈ ancestors, IsScope d)
    (hst : Stacked input root w.entries.toList ancestors) {d : Declaration}
    (ho : Opens input ancestors n head d) (e : StreamEntry) (hed : e.declaration = d)
    (hea : e.ancestors = ancestors) :
    Extends input root w (w.push input head e) ∧
      Stacked input root (w.push input head e).entries.toList (ancestors ++ [d]) := by
  have hd : Continues ancestors d ∧ d.isEmpty = false := by
    cases ho <;> exact ⟨continues_declare .., place_ne_empty hi _⟩
  have hext : Extends input root w (w.push input head e) := by
    refine .push (.of_scopes ?_ ?_ ?_ ?_)
    · rwa [hea]
    · rwa [hea]
    · rw [hea, hed]
      exact fun _ => hd.1
    · rw [hed]
      exact hd.2
  refine ⟨hext, (hst.mono hext.grows).concat hd.1 ⟨n, head, hn, ho, ?_⟩⟩
  by_cases hs : isSystem input head.location
  · exact .inr hs
  · refine .inl ⟨e, ?_, hed, hea⟩
    simp [Walk.push, hs]

theorem extends_value (hi : input ≠ "") (hsc : ∀ d ∈ ancestors, IsScope d)
    (hst : Stacked input root w.entries.toList ancestors) {kind : DeclarationKind}
    (type : Option String) :
    Extends input root w (w.value input ancestors kind head type) := by
  unfold Walk.value
  split
  · exact .refl w
  · exact .push (.of_scopes hst hsc (fun _ => continues_declare ..) (place_ne_empty hi _))

private theorem extends_parameters (hi : input ≠ "") (hsc : ∀ d ∈ ancestors, IsScope d)
    {f : Declaration} (hst : Stacked input root w.entries.toList (ancestors ++ [f]))
    (nodes : List Node) :
    Extends input root w (w.parameters input (ancestors ++ [f]) nodes) := by
  refine Extends.foldl (fun w n hst => ?_) nodes w hst
  split
  · unfold Walk.value
    split
    · exact .refl w
    · exact .push (.of_parameter rfl hst hsc rfl (continues_declare ..) (place_ne_empty hi _))
  · exact .refl w

private theorem kind_function (role : FunctionRole) (ancestors : List Declaration) :
    let kind : DeclarationKind :=
      if role = .free || !inRecord ancestors then .function else .method
    kind = .method ∨ kind = .function := by
  dsimp only
  split
  · exact .inr rfl
  · exact .inl rfl

private theorem extends_function (hi : input ≠ "") {role : FunctionRole}
    {facts : FunctionFacts} {nodes : List Node}
    (hn : (Node.mk (.function role head facts) nodes).Within root)
    (hsc : ∀ d ∈ ancestors, IsScope d)
    (hst : Stacked input root w.entries.toList ancestors) :
    Extends input root w (w.function input ancestors role head facts nodes) := by
  unfold Walk.function
  split
  · exact .refl w
  · rename_i name hname
    split
    · exact .refl w
    · rename_i himp
      have ho : Opens input ancestors (.mk (.function role head facts) nodes) head _ :=
        .function hname (eq_false_of_ne_true himp) (kind_function role ancestors)
      obtain ⟨hext, hin⟩ := extends_open hi hn hsc hst ho ⟨_, _, _, _, _⟩ rfl rfl
      refine hext.trans (.within fun w' hw => ?_)
      rw [← hw] at hin
      exact extends_parameters hi hsc hin nodes

private theorem extends_bases (hi : input ≠ "") (hsc : ∀ d ∈ ancestors, IsScope d)
    (hst : Stacked input root w.entries.toList ancestors) (access : Visibility)
    (bs : List Base) :
    Extends input root w (w.bases input ancestors head access bs) := by
  refine Extends.foldl (fun w b hst => ?_) bs w hst
  split
  · exact .refl w
  · exact .push (.of_scopes hst hsc (fun hk => absurd rfl hk) (place_ne_empty hi _))

private theorem isScope_concat (hsc : ∀ d ∈ ancestors, IsScope d) {d : Declaration}
    (hd : IsScope d) : ∀ d' ∈ ancestors ++ [d], IsScope d' := by
  intro d' hmem
  rcases List.mem_append.1 hmem with hmem | hmem
  · exact hsc d' hmem
  · rwa [List.mem_singleton.1 hmem]

variable {members : List Declaration → Walk → Walk}

private theorem extends_namespace (hi : input ≠ "") {nodes : List Node}
    (hn : (Node.mk (.namespaceDecl head) nodes).Within root)
    (hmem : ∀ inside w', (∀ d ∈ inside, IsScope d) →
      Stacked input root w'.entries.toList inside →
        Extends input root w' (members inside w'))
    (hsc : ∀ d ∈ ancestors, IsScope d)
    (hst : Stacked input root w.entries.toList ancestors) :
    Extends input root w (w.enterNamespace input ancestors head members) := by
  unfold Walk.enterNamespace
  obtain ⟨hext, hin⟩ := extends_open hi hn hsc hst (.namespaceDecl head nodes)
    ⟨_, _, none, .invalid, {}⟩ rfl rfl
  refine hext.trans (.within fun w' hw => ?_)
  rw [← hw] at hin
  exact hmem _ w' (isScope_concat hsc (.inl rfl)) hin

private theorem extends_record (hi : input ≠ "") (hn : n.Within root) {name : String}
    {facts : RecordFacts}
    (ho : ∀ kind, Walk.recordKind? facts.tag = some kind →
      Opens input ancestors n head (declare input ancestors kind head name))
    (hmem : ∀ inside w', (∀ d ∈ inside, IsScope d) →
      Stacked input root w'.entries.toList inside →
        Extends input root w' (members inside w'))
    (hsc : ∀ d ∈ ancestors, IsScope d)
    (hst : Stacked input root w.entries.toList ancestors) :
    Extends input root w (w.record input ancestors head facts name members) := by
  unfold Walk.record
  cases hk : Walk.recordKind? facts.tag with
  | none => exact .refl w
  | some kind =>
      obtain ⟨hext, hin⟩ := extends_open (w := w.name _) hi hn hsc hst (ho kind hk)
        ⟨_, _, _, _, _⟩ rfl rfl
      have hsc' := isScope_concat hsc (d := declare input ancestors kind head name)
        (.inr (isStructure_of_recordKind hk))
      refine Extends.trans ⟨hext.grows, hext.nested⟩ (.within fun w' hw => ?_)
      rw [← hw] at hin
      have hbases : Extends input root w' (w'.bases input
          (ancestors ++ [declare input ancestors kind head name]) head
          (Walk.initialAccess kind) facts.bases) := extends_bases hi hsc' hin _ _
      exact hbases.trans (hmem _ _ hsc' (hin.mono hbases.grows))

/-- A step of a walk inside nested scopes puts nested entries on the stream, if what it makes
of the nodes inside does. -/
theorem extends_walkStep (hi : input ≠ "") (hn : n.Within root)
    (hmem : ∀ inside w', (∀ d ∈ inside, IsScope d) →
      Stacked input root w'.entries.toList inside →
        Extends input root w' (members inside w'))
    (hsc : ∀ d ∈ ancestors, IsScope d)
    (hst : Stacked input root w.entries.toList ancestors) :
    Extends input root w (walkStep input ancestors n members w) := by
  obtain ⟨payload, nodes⟩ := n
  cases payload with
  | namespaceDecl head => exact extends_namespace hi hn hmem hsc hst
  | record head facts =>
      unfold walkStep
      dsimp only [Node.payload_mk]
      split
      · rename_i name hname
        split
        · exact .refl w
        · rename_i himp
          exact extends_record hi hn
            (fun kind hk => .record hname (eq_false_of_ne_true himp) hk) hmem hsc hst
      · exact .refl w
  | specialization head facts =>
      unfold walkStep
      dsimp only [Node.payload_mk]
      split
      · rename_i name hname
        exact extends_record hi hn (fun kind hk => .specialization hname hk) hmem hsc hst
      · exact .refl w
  | field head type => exact extends_value hi hsc hst type
  | function role head facts => exact extends_function hi hn hsc hst
  | typeAlias head target =>
      exact .of_entries_eq (entries_typeAlias w input ancestors head target)
  | enumeration head =>
      exact .of_entries_eq (entries_enumeration w input ancestors head)
  | accessSpecifier access =>
      unfold walkStep
      dsimp only [Node.payload_mk]
      split <;> exact .of_entries_eq rfl
  | parameter | templateArgument => exact .refl w
  | other => exact hmem ancestors w hsc hst

end Steps

/-- What a walk inside nested scopes puts on a stream is nested. -/
theorem walk_extends (hi : input ≠ "") {ancestors : List Declaration} {w : Walk}
    (hsc : ∀ d ∈ ancestors, IsScope d)
    (hst : Stacked input root w.entries.toList ancestors) :
    Extends input root w (walk input ancestors root w) := by
  refine walk_induct (R := fun ancestors w w' => (∀ d ∈ ancestors, IsScope d) →
    Stacked input root w.entries.toList ancestors → Extends input root w w')
    ?_ ?_ ?_ ancestors w hsc hst
  · exact fun _ w _ _ => .refl w
  · intro ancestors w₁ w₂ w₃ h h' hsc hst
    have hext := h hsc hst
    exact hext.trans (h' hsc (hst.mono hext.grows))
  · intro n hn ancestors w members hmem hsc hst
    exact extends_walkStep hi hn hmem hsc hst

/-! ## Sources -/

theorem nameBase_of_ne {e : StreamEntry} (h : e.declaration.kind ≠ .baseSpecifier)
    (names : NameTable) : nameBase names e = e := by
  rw [nameBase, if_neg h]

@[simp] theorem ancestors_nameBase (names : NameTable) (e : StreamEntry) :
    (nameBase names e).ancestors = e.ancestors := by
  unfold nameBase
  split <;> rfl

@[simp] theorem kind_nameBase (names : NameTable) (e : StreamEntry) :
    (nameBase names e).declaration.kind = e.declaration.kind := by
  unfold nameBase
  split <;> rfl

theorem location_nameBase (names : NameTable) (e : StreamEntry) :
    (nameBase names e).declaration.location = e.declaration.location := by
  unfold nameBase
  split <;> rfl

theorem Opens.kind_ne {outer : List Declaration} {n : Node} {head : Head} {d : Declaration}
    (h : Opens input outer n head d) : d.kind ≠ .baseSpecifier := by
  cases h with
  | namespaceDecl => exact nofun
  | record _ _ hk | specialization _ hk =>
      intro hb
      dsimp only [declare] at hb
      subst hb
      exact absurd (isStructure_of_recordKind hk) Bool.false_ne_true
  | function _ _ hk => rcases hk with rfl | rfl <;> exact nofun

/-- Naming the bases changes nothing that other declarations stand inside. -/
theorem Stacked.map_nameBase {before : List StreamEntry} {ancestors : List Declaration}
    (h : Stacked input root before ancestors) (names : NameTable) :
    Stacked input root (before.map (nameBase names)) ancestors := by
  intro outer d inner heq
  obtain ⟨hc, n, head, hn, ho, hm⟩ := h outer d inner heq
  refine ⟨hc, n, head, hn, ho, hm.imp_left ?_⟩
  rintro ⟨e, he, hd, ha⟩
  have hb : nameBase names e = e := nameBase_of_ne (by rw [hd]; exact ho.kind_ne) names
  exact ⟨e, List.mem_map.2 ⟨e, he, hb⟩, hd, ha⟩

theorem Nested.map_nameBase {before : List StreamEntry} {e : StreamEntry}
    (h : Nested input root before e) (names : NameTable) :
    Nested input root (before.map (nameBase names)) (nameBase names e) where
  stacked := by
    rw [ancestors_nameBase]
    exact h.stacked.map_nameBase names
  continues := by
    rw [kind_nameBase]
    intro hk
    rw [nameBase_of_ne hk]
    exact h.continues hk
  scope := scopesOf_eq _
  functions := by
    rw [ancestors_nameBase, kind_nameBase]
    exact h.functions
  isPlaced := by
    rw [Declaration.isEmpty, location_nameBase]
    exact h.isPlaced

/-- Every entry of a dump stands inside declarations that form a chain of names which it
continues itself, and each of which was met before it; functions are only around parameters,
and no entry stands for the end of the stream. -/
theorem Source.nested_of_ofTree {input : String} (hi : input ≠ "") (root : Node)
    {before after : List StreamEntry} {e : StreamEntry}
    (h : (ofTree input root).cursor.toList = before ++ e :: after) :
    Nested input root before e := by
  have hstream : NestedStream input root (Walk.ofTree input root).entries.toList :=
    (walk_extends hi (by simp) (Stacked.nil _)).nested .nil
  have hmap : (Walk.ofTree input root).entries.toList.map
      (nameBase (Walk.ofTree input root).names) = before ++ e :: after := by
    rw [← Array.toList_map]
    exact h
  obtain ⟨before', rest, hsplit, rfl, hrest⟩ := List.map_eq_append_iff.1 hmap
  obtain ⟨e', after', rfl, rfl, rfl⟩ := List.map_eq_cons_iff.1 hrest
  exact (hstream.nested hsplit).map_nameBase _

/-- A struct with a field, in a namespace from a system header. -/
def Node.sheltered : Node :=
  .mk (.namespaceDecl { name := some "std", location := some ⟨"/usr/include/s.h", 1, 1⟩ })
    [.mk (.record { name := some "S" } {}) [.mk (.field { name := some "x" } (some "int")) []]]

theorem nested_sheltered :
    "a.h" ≠ "" ∧
    (Source.ofTree "a.h" Node.sheltered).cursor.toList.map
      (·.ancestors.map (·.qualifiedName)) = [["std"], ["std", "std::S"]] ∧
    ∃ s x, (Source.ofTree "a.h" Node.sheltered).cursor.toList = [s] ++ x :: [] ∧
      Nested "a.h" Node.sheltered [s] x := by
  have hlen : (Source.ofTree "a.h" Node.sheltered).cursor.toList.length = 2 := by
    decide +kernel
  obtain ⟨s, x, h⟩ := List.length_eq_two.1 hlen
  exact ⟨by decide, by decide +kernel, s, x, h,
    Source.nested_of_ofTree (by decide) Node.sheltered h⟩

end DeclAtlas.Dump
