import DeclAtlas.Proofs.Dump.Stops

/-!
# Entries of a stop

What a stop puts on the stream is of few kinds: the namespace, record, field or function that
its node declares, the bases written for a record, and the parameters written inside a
function. Every entry says where it comes from.

## Main results

* `opened?_eq_some`: what is opened is a namespace or a record.
* `puts_of_mem`: an entry of a stop is one of those that it can put on the stream.
-/

namespace DeclAtlas.Dump

variable {input : String} {ancestors : List Declaration} {head : Head} {n : Node}
  {w : Walk} {v : Stop} {e x : StreamEntry}

/-! ## Kinds of entries -/

/-- What the declaration of a node has in common with others, if it is one. -/
def Payload.head? : Payload → Option Head
  | .namespaceDecl head | .record head _ | .specialization head _ | .field head _
  | .function _ head _ | .parameter head _ | .typeAlias head _ | .enumeration head => some head
  | .templateArgument _ | .accessSpecifier _ | .other => none

/-- The bases written for a record. -/
def Payload.bases : Payload → List Base
  | .record _ facts | .specialization _ facts => facts.bases
  | _ => []

/-- The visibility of a member that is declared at a stop. -/
def Stop.visibility (v : Stop) (head : Head) : Visibility :=
  ({ access := v.access } : Walk).memberVisibility v.ancestors head

/-- The entry of a member that the node of a stop declares itself. -/
structure Declares (input : String) (v : Stop) (head : Head) (e : StreamEntry) : Prop where
  payload : v.node.payload.head? = some head
  ancestors : e.ancestors = v.ancestors
  declaration : e.declaration =
    declare input v.ancestors e.declaration.kind head e.declaration.identifier
  visibility : e.visibility = v.visibility head

/-- An entry of a base as it is written inside `inside`. -/
structure WrittenBase (inside : List Declaration) (b : Base) (e : StreamEntry) : Prop where
  kind : e.declaration.kind = .baseSpecifier
  ancestors : e.ancestors = inside
  spelling : e.spelling = b.spelling
  written : b.spelling.isSome = true

/-- The entry of a parameter inside a function. -/
def parameterEntry (input : String) (inside : List Declaration)
    (p : Head × Option String) : StreamEntry where
  declaration := declare input inside .parameter p.1 (p.1.name.getD "")
  ancestors := inside
  spelling := p.2
  visibility := (p.1.access.map Visibility.ofAccess).getD .invalid
  flags := {}

/-- An entry of a parameter that is written among the nodes inside a function. -/
def WrittenParameter (input : String) (outside : List Declaration) (nodes : List Node)
    (e : StreamEntry) : Prop :=
  ∃ m ∈ nodes, ∃ head type f, m.payload = .parameter head type ∧
    (f.kind = .method ∨ f.kind = .function) ∧
    e = parameterEntry input (outside ++ [f]) (head, type)

theorem WrittenParameter.kind {outside : List Declaration} {nodes : List Node}
    (hw : WrittenParameter input outside nodes e) : e.declaration.kind = .parameter := by
  obtain ⟨_, -, _, _, _, -, -, rfl⟩ := hw
  rfl

/-- The entries that a stop can put on the stream. -/
inductive Puts (input : String) (v : Stop) (e : StreamEntry) : Prop where
  /-- A namespace or record. -/
  | scope {d : Declaration} {access : Visibility}
      (ho : opened? input v.ancestors v.node = some (d, access)) (hd : e.declaration = d)
      (hr : d.kind.isStructure = true → ∃ head, Declares input v head e)
  | base {d : Declaration} {access : Visibility}
      (ho : opened? input v.ancestors v.node = some (d, access))
      (hr : d.kind.isStructure = true)
      (hb : ∃ b ∈ v.node.payload.bases, WrittenBase (v.ancestors ++ [d]) b e)
  | field {head : Head} {type : Option String} (hp : v.node.payload = .field head type)
      (hk : e.declaration.kind = .field) (hd : Declares input v head e)
  /-- A function or one of its parameters. -/
  | function {role : FunctionRole} {head : Head} {facts : FunctionFacts}
      (hp : v.node.payload = .function role head facts)
      (hk : (e.declaration.kind = .method ∨ e.declaration.kind = .function) ∧
          Declares input v head e ∨
        WrittenParameter input v.ancestors v.node.inner e)

/-- What is opened is a namespace or a record, and its kind tells with which access it
begins. -/
theorem opened?_eq_some {d : Declaration} {access : Visibility}
    (h : opened? input ancestors n = some (d, access)) :
    d.kind = .namespaceDecl ∧ access = .invalid ∨
      d.kind.isStructure = true ∧ access = Walk.initialAccess d.kind := by
  have record : ∀ (head : Head) (facts : RecordFacts) (name : String),
      (Walk.recordKind? facts.tag).map (fun kind =>
        (declare input ancestors kind head name, Walk.initialAccess kind)) = some (d, access) →
      d.kind.isStructure = true ∧ access = Walk.initialAccess d.kind := by
    intro head facts name h
    obtain ⟨kind, hk, he⟩ := Option.map_eq_some_iff.1 h
    obtain ⟨rfl, rfl⟩ := Prod.mk.inj he
    exact ⟨isStructure_of_recordKind hk, rfl⟩
  unfold opened? at h
  dsimp only at h
  split at h
  · obtain ⟨rfl, rfl⟩ := Prod.mk.inj (Option.some.inj h)
    exact Or.inl ⟨rfl, rfl⟩
  · split at h
    · exact nomatch h
    · obtain ⟨name, -, h⟩ := Option.bind_eq_some_iff.1 h
      exact Or.inr (record _ _ name h)
  · obtain ⟨name, -, h⟩ := Option.bind_eq_some_iff.1 h
    exact Or.inr (record _ _ name h)
  · exact nomatch h

theorem kind_of_opened {d : Declaration} {access : Visibility}
    (h : opened? input ancestors n = some (d, access)) :
    d.kind = .namespaceDecl ∨ d.kind.isStructure = true :=
  (opened?_eq_some h).imp And.left And.left

/-! ## Entries of the parts of a walk -/

theorem mem_push (h : e ∈ (w.push input head x).entries.toList) :
    e ∈ w.entries.toList ∨ e = x := by
  unfold Walk.push at h
  split at h
  · exact Or.inl h
  · rw [Array.toList_push] at h
    rcases List.mem_append.1 h with h | h
    · exact Or.inl h
    · exact Or.inr (List.mem_singleton.1 h)

theorem mem_value {kind : DeclarationKind} {type : Option String}
    (h : e ∈ (w.value input ancestors kind head type).entries.toList) :
    e ∈ w.entries.toList ∨ e = {
      declaration := declare input ancestors kind head (head.name.getD "")
      ancestors := ancestors
      spelling := type
      visibility := w.memberVisibility ancestors head
      flags := {} } := by
  unfold Walk.value at h
  split at h
  · exact Or.inl h
  · exact mem_push h

theorem mem_bases {inside : List Declaration} {access : Visibility} {bs : List Base}
    (h : e ∈ (w.bases input inside head access bs).entries.toList) :
    e ∈ w.entries.toList ∨ ∃ b ∈ bs, WrittenBase inside b e := by
  induction bs generalizing w with
  | nil => exact Or.inl h
  | cons b bs ih =>
      rcases ih h with h | ⟨b', hb', hw⟩
      · dsimp only at h
        split at h
        · exact Or.inl h
        · rename_i spelling hb
          rcases mem_push h with h | rfl
          · exact Or.inl h
          · exact Or.inr ⟨b, List.mem_cons_self, rfl, rfl, hb.symm, by rw [hb]; rfl⟩
      · exact Or.inr ⟨b', List.mem_cons_of_mem b hb', hw⟩

/-- Outside a record a member has the access written for it, or none. -/
theorem memberVisibility_of_outside {inside : List Declaration}
    (h : inRecord inside = false) (w : Walk) (head : Head) :
    w.memberVisibility inside head = (head.access.map Visibility.ofAccess).getD .invalid := by
  unfold Walk.memberVisibility
  rw [h]
  cases head.access <;> rfl

theorem inRecord_of_function {f : Declaration} (hf : f.kind = .method ∨ f.kind = .function)
    (ancestors : List Declaration) : inRecord (ancestors ++ [f]) = false := by
  unfold inRecord
  rw [List.getLast?_concat, Option.any_some]
  rcases hf with hk | hk <;> rw [hk] <;> rfl

theorem mem_parameters {f : Declaration} {nodes : List Node}
    (hf : f.kind = .method ∨ f.kind = .function)
    (h : e ∈ (w.parameters input (ancestors ++ [f]) nodes).entries.toList) :
    e ∈ w.entries.toList ∨ WrittenParameter input ancestors nodes e := by
  have hout := inRecord_of_function hf ancestors
  induction nodes generalizing w with
  | nil => exact Or.inl h
  | cons n nodes ih =>
      rcases ih h with h | ⟨m, hm, hw⟩
      · dsimp only at h
        split at h
        · rename_i head type hp
          rcases mem_value h with h | rfl
          · exact Or.inl h
          · refine Or.inr ⟨n, List.mem_cons_self, head, type, f, hp, hf, ?_⟩
            rw [memberVisibility_of_outside hout]
            rfl
        · exact Or.inl h
      · exact Or.inr ⟨m, List.mem_cons_of_mem n hm, hw⟩

/-! ## Entries of a stop -/

/-- A function puts itself and its parameters on the stream. -/
theorem puts_of_mem_function {role : FunctionRole} {facts : FunctionFacts}
    (hp : v.node.payload = .function role head facts)
    (h : e ∈ (({ access := v.access } : Walk).function input v.ancestors role head facts
      v.node.inner).entries.toList) : Puts input v e := by
  unfold Walk.function at h
  split at h
  · exact absurd h List.not_mem_nil
  · rename_i name _
    split at h
    · exact absurd h List.not_mem_nil
    · dsimp only [Walk.within] at h
      have hkind : (declare input v.ancestors
            (if role = .free || !inRecord v.ancestors then .function else .method)
            head name).kind = .method ∨
          (declare input v.ancestors
            (if role = .free || !inRecord v.ancestors then .function else .method)
            head name).kind = .function := by
        dsimp only [declare]
        split
        · exact Or.inr rfl
        · exact Or.inl rfl
      rcases mem_parameters hkind h with h | h
      · rcases mem_push h with h | rfl
        · exact absurd h List.not_mem_nil
        · refine .function hp (Or.inl ⟨hkind, ?_, rfl, rfl, rfl⟩)
          rw [hp]
          rfl
      · exact .function hp (Or.inr h)

/-- A record without members puts itself and its bases on the stream. -/
theorem puts_of_mem_record {facts : RecordFacts} {name : String}
    (hhead : v.node.payload.head? = some head) (hbases : v.node.payload.bases = facts.bases)
    (ho : opened? input v.ancestors v.node = (Walk.recordKind? facts.tag).map fun kind =>
      (declare input v.ancestors kind head name, Walk.initialAccess kind))
    (h : e ∈ (({ access := v.access } : Walk).record input v.ancestors head facts name
      fun _ w => w).entries.toList) : Puts input v e := by
  unfold Walk.record at h
  split at h
  · exact absurd h List.not_mem_nil
  · rename_i kind hk
    rw [hk] at ho
    rcases mem_bases h with h | ⟨b, hb, hw⟩
    · rcases mem_push h with h | rfl
      · exact absurd h List.not_mem_nil
      · exact .scope ho rfl fun _ => ⟨head, hhead, rfl, rfl, rfl⟩
    · rw [← hbases] at hb
      exact .base ho (isStructure_of_recordKind hk) ⟨b, hb, hw⟩

/-- An entry of a stop is one of those that it can put on the stream. -/
theorem puts_of_mem (he : e ∈ v.entries input) : Puts input v e := by
  obtain ⟨ancestors, access, payload, nodes⟩ := v
  unfold Stop.entries at he
  cases payload with
  | namespaceDecl head =>
      rcases mem_push he with h | rfl
      · exact absurd h List.not_mem_nil
      · exact .scope rfl rfl (nomatch ·)
  | record head facts =>
      unfold walkStep at he
      dsimp only [Node.payload_mk] at he
      split at he
      · rename_i name hname
        split at he
        · exact absurd he List.not_mem_nil
        · rename_i himp
          refine puts_of_mem_record (v := ⟨ancestors, access, _⟩) rfl rfl ?_ he
          simp [opened?, hname, himp]
      · exact absurd he List.not_mem_nil
  | specialization head facts =>
      unfold walkStep at he
      dsimp only [Node.payload_mk] at he
      split at he
      · rename_i name hname
        have hname' : head.name.bind (specializationName? · nodes) = some name := hname
        refine puts_of_mem_record (v := ⟨ancestors, access, _⟩) rfl rfl ?_ he
        simp [opened?, hname']
      · exact absurd he List.not_mem_nil
  | field head type =>
      rcases mem_value he with h | rfl
      · exact absurd h List.not_mem_nil
      · exact .field rfl rfl ⟨rfl, rfl, rfl, rfl⟩
  | function role head facts =>
      exact puts_of_mem_function (v := ⟨ancestors, access, _⟩) rfl he
  | typeAlias head target =>
      have hnone := entries_typeAlias { access := access } input ancestors head target
      exact absurd (show e ∈ (({ access := access } : Walk).typeAlias input ancestors head
        target).entries.toList from he) (by rw [hnone]; exact List.not_mem_nil)
  | enumeration head =>
      have hnone := entries_enumeration { access := access } input ancestors head
      exact absurd (show e ∈ (({ access := access } : Walk).enumeration input ancestors
        head).entries.toList from he) (by rw [hnone]; exact List.not_mem_nil)
  | accessSpecifier written =>
      unfold walkStep at he
      dsimp only [Node.payload_mk] at he
      split at he <;> exact absurd he List.not_mem_nil
  | parameter | templateArgument | other => exact absurd he List.not_mem_nil

end DeclAtlas.Dump
