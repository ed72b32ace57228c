import DeclAtlas.Dump.Source
import DeclAtlas.Proofs.Dump.Walking

/-!
# The names of a dump

A name of a declaration that is read is never empty. So no entry of a table of names has an
empty name either, and each stands for a declaration of that very name.

What a reader yields is described by `Yields`, whatever place is carried along: it goes
through the steps of a reader as its result does.

## Main results

* `yields_readNode`: all nodes that are read have names, if any, that are not empty.
* `names_walk`: what is true of all that nodes register is true of all names.
* `registered_ofJson`: what is in the table of names of a dump.
* `resolve?_mem`: a name that is looked up is found among the names of the table.
-/

namespace DeclAtlas.Dump

open Json (Value)
open Text

/-! ## What a reader yields -/

/-- Every result of a reader has the property `P`. -/
def Yields {α : Type} (m : Reader α) (P : α → Prop) : Prop := ∀ c r, m.run c = some r → P r.1

namespace Yields

variable {α β : Type} {m : Reader α} {P : α → Prop}

theorem pure {a : α} (h : P a) : Yields (pure a) P := by
  intro c r hr
  cases hr
  exact h

theorem refuse : Yields refuse P := fun _ _ hr => nomatch hr

theorem ofOption {o : Option α} (h : ∀ a, o = some a → P a) : Yields (ofOption o) P := by
  intro c r hr
  rw [Dump.ofOption, StateT.run_lift] at hr
  obtain ⟨a, ha, hr⟩ := Option.bind_eq_some_iff.1 hr
  rw [← Option.some.inj hr]
  exact h a ha

theorem bind {f : β → Reader α} {m : Reader β} {Q : β → Prop} (hm : Yields m Q)
    (hf : ∀ b, Q b → Yields (f b) P) : Yields (m >>= f) P := by
  intro c r hr
  rw [StateT.run_bind] at hr
  obtain ⟨p, hp, hr⟩ := Option.bind_eq_some_iff.1 hr
  exact hf p.1 (hm c p hp) p.2 r hr

/-- Whatever comes before, it is the last step that counts. -/
theorem bind_of_forall {f : β → Reader α} {m : Reader β} (hf : ∀ b, Yields (f b) P) :
    Yields (m >>= f) P :=
  bind (Q := fun _ => True) (fun _ _ _ => trivial) fun b _ => hf b

theorem map {f : β → α} {m : Reader β} (h : Yields m fun b => P (f b)) : Yields (f <$> m) P := by
  intro c r hr
  rw [StateT.run_map] at hr
  obtain ⟨p, hp, rfl⟩ := Option.map_eq_some_iff.1 hr
  exact h c p hp

theorem foldlM {f : α → β → Reader α} (hf : ∀ a x, P a → Yields (f a x) P) (xs : List β)
    {a : α} (ha : P a) : Yields (xs.foldlM f a) P := by
  induction xs generalizing a with
  | nil => exact .pure ha
  | cons x xs ih =>
      rw [List.foldlM_cons]
      exact bind (hf a x ha) fun b hb => ih hb

theorem mapM {f : β → Reader α} (hf : ∀ x, Yields (f x) P) (xs : List β) :
    Yields (xs.mapM f) fun ys => ∀ y ∈ ys, P y := by
  induction xs with
  | nil => exact .pure (by simp)
  | cons x xs ih =>
      rw [List.mapM_cons]
      exact bind (hf x) fun y hy => bind ih fun ys hys => .pure (List.forall_mem_cons.2 ⟨hy, hys⟩)

end Yields

/-! ## Names of nodes -/

/-- What a node declares has no empty name. -/
def Payload.IsNamed : Payload → Prop
  | .namespaceDecl head | .record head _ | .specialization head _ | .field head _
  | .function _ head _ | .parameter head _ | .typeAlias head _ | .enumeration head =>
    head.name ≠ some ""
  | .templateArgument _ | .accessSpecifier _ | .other => True

/-- What all nodes of a tree declare has no empty names. -/
def Node.IsNamed (root : Node) : Prop := ∀ n : Node, n.Within root → n.payload.IsNamed

theorem Node.isNamed_mk {payload : Payload} {nodes : List Node} (hp : payload.IsNamed)
    (hn : ∀ n ∈ nodes, n.IsNamed) : (Node.mk payload nodes).IsNamed :=
  Node.forall_within_mk hp hn

theorem isNamed_payload {a : Attributes} (ha : a.head.name ≠ some "") (kind : String) :
    ((Form.ofKind kind).payload a).IsNamed := by
  unfold Form.ofKind
  split <;> first | exact ha | trivial

/-- No known member gives a node an empty name. -/
theorem yields_readKnown {a : Attributes} (ha : a.head.name ≠ some "") (budget : Nat)
    (key : String) (v : Value) :
    Yields (readKnown budget a key v) fun a' => a'.head.name ≠ some "" := by
  unfold readKnown
  split
  · exact .refuse
  · dsimp only
    split
    case h_1 =>
      refine .bind_of_forall fun name => .pure ?_
      intro hname
      have hne := (Option.mem_filter_iff.1 (show "" ∈ name.filter (· ≠ "") from hname)).2
      exact absurd hne (by decide)
    case h_10 =>
      split
      · exact .pure ha
      · exact .refuse
    all_goals first
      | exact .pure ha
      | exact .bind_of_forall fun _ => .pure ha

theorem yields_readMember {read : Attributes × List Node} {form : Form} {budget : Nat}
    {inner : Value → Reader (List Node)}
    (hinner : ∀ v, Yields (inner v) fun nodes => ∀ n ∈ nodes, n.IsNamed)
    (hread : read.1.head.name ≠ some "" ∧ ∀ n ∈ read.2, n.IsNamed)
    (member : Option String × Value) :
    Yields (readMember form budget inner read member) fun read' =>
      read'.1.head.name ≠ some "" ∧ ∀ n ∈ read'.2, n.IsNamed := by
  unfold readMember
  split
  · exact .refuse
  · refine .map fun c r hr => ⟨hread.1, hinner _ c r hr⟩
  · split
    · exact .map fun c r hr => ⟨yields_readKnown hread.1 _ _ _ c r hr, hread.2⟩
    · exact .pure hread

theorem yields_readMembers {budget : Nat} {inner : Value → Reader (List Node)}
    (hinner : ∀ v, Yields (inner v) fun nodes => ∀ n ∈ nodes, n.IsNamed)
    (members : List (Option String × Value)) :
    Yields (readMembers budget inner members) Node.IsNamed := by
  have hform : Yields (ofOption (kindOf? members)) fun p =>
      ∀ a : Attributes, a.head.name ≠ some "" → (p.1.payload a).IsNamed := by
    refine .ofOption fun p hp a ha => ?_
    unfold kindOf? at hp
    dsimp only at hp
    split at hp
    · cases hp
      trivial
    · obtain ⟨kind, -, rfl⟩ := Option.map_eq_some_iff.1 hp
      exact isNamed_payload ha kind
    · exact nomatch hp
  unfold readMembers
  refine .bind hform ?_
  rintro ⟨form, rest⟩ hf
  refine .bind (.foldlM (fun read member hread => yields_readMember hinner hread member) rest
    ⟨nofun, by simp⟩) ?_
  rintro ⟨a, nodes⟩ ⟨ha, hnodes⟩
  exact .pure (Node.isNamed_mk (hf a ha) hnodes)

/-- Every node that is read, and every node inside it, has no empty name. -/
theorem yields_readNode (budget : Nat) (v : Value) : Yields (readNode budget v) Node.IsNamed := by
  induction budget using Nat.strongRecOn generalizing v with
  | ind budget ih =>
      unfold readNode
      split
      · exact yields_readMembers (fun _ => .refuse) _
      · rename_i budget members
        refine yields_readMembers (fun v => ?_) members
        split
        · exact .mapM (fun item => ih budget (by omega) item) _
        · exact .refuse
      · exact .refuse

theorem isNamed_ofJson {v : Value} {root : Node} (h : Node.ofJson? v = some root) :
    root.IsNamed := by
  obtain ⟨r, hr, rfl⟩ := Option.map_eq_some_iff.1 h
  exact yields_readNode depthLimit v {} r hr

/-! ## Tables of names -/

/-- A name with its meaning as a walk enters it. -/
structure Registered (name : String) (meaning : NameMeaning) : Prop where
  ne : name ≠ ""
  declaration : meaning.declaration.qualifiedName = name
  record : ∀ d, meaning = .record d → d.kind.isStructure = true

namespace NameTable

variable {t : NameTable} {name : String} {meaning : NameMeaning}

/-- All names of a table and their meanings have the property `P`. -/
def All (P : String → NameMeaning → Prop) (t : NameTable) : Prop := ∀ p ∈ t.names, P p.1 p.2

/-- All names of a table are registered as a walk does. -/
def AllRegistered (t : NameTable) : Prop := ∀ p ∈ t.names, Registered p.1 p.2

theorem mem_of_get? (h : t.get? name = some meaning) : (name, meaning) ∈ t.names := by
  obtain ⟨⟨name', m⟩, hp, rfl⟩ := Option.map_eq_some_iff.1 h
  have hname : name' = name := by simpa using List.find?_some hp
  rw [← hname]
  exact List.mem_of_find?_eq_some hp

theorem mem_of_has (h : t.has name = true) : name ∈ t.names.map (·.1) := by
  obtain ⟨m, hm⟩ := Option.isSome_iff_exists.1 h
  exact List.mem_map.2 ⟨_, mem_of_get? hm, rfl⟩

/-- A name that is looked up is found among the names of the table. -/
theorem resolve?_mem {written : String} {scope : List String}
    (h : t.resolve? written scope = some name) : name ∈ t.names.map (·.1) := by
  unfold resolve? at h
  split at h
  · split at h
    · rename_i hhas
      rw [← Option.some.inj h]
      exact mem_of_has hhas
    · exact nomatch h
  · split at h
    · rename_i found hfind
      rw [← Option.some.inj h]
      exact mem_of_has (List.find?_some hfind)
    · split at h
      · rename_i only hends
        rw [← Option.some.inj h]
        have hmem : only ∈ t.endingIn written := by simp [hends]
        exact (List.mem_filter.1 hmem).1
      · exact nomatch h

theorem AllRegistered.get? (ht : t.AllRegistered) (h : t.get? name = some meaning) :
    Registered name meaning :=
  ht _ (mem_of_get? h)

theorem All.insert {P : String → NameMeaning → Prop} (ht : t.All P) (hm : P name meaning) :
    (t.insert name meaning).All P := by
  unfold NameTable.insert
  split
  · exact ht
  · intro p hp
    rcases List.mem_append.1 hp with hp | hp
    · exact ht p hp
    · rwa [List.mem_singleton.1 hp]

theorem All.define {P : String → NameMeaning → Prop} (ht : t.All P) {d : Declaration}
    (hm : P name (.record d)) : (t.define name d).All P := by
  unfold NameTable.define
  split
  · exact ht.insert hm
  · intro p hp
    obtain ⟨p', hp', rfl⟩ := List.mem_map.1 hp
    split
    · exact hm
    · exact ht p' hp'
  · exact ht

end NameTable

/-! ## What a walk registers -/

section Walks

variable {input : String} {root : Node} {w : Walk} {ancestors : List Declaration}
  {head : Head} {name : String}

theorem names_push (w : Walk) (input : String) (head : Head) (e : StreamEntry) :
    (w.push input head e).names = w.names := by
  unfold Walk.push
  split <;> rfl

theorem names_value (w : Walk) (input : String) (ancestors : List Declaration)
    (kind : DeclarationKind) (head : Head) (type : Option String) :
    (w.value input ancestors kind head type).names = w.names := by
  unfold Walk.value
  split
  · rfl
  · exact names_push ..

private theorem names_foldl {α : Type} {step : Walk → α → Walk}
    (hstep : ∀ w x, (step w x).names = w.names) (xs : List α) (w : Walk) :
    (xs.foldl step w).names = w.names := by
  induction xs generalizing w with
  | nil => rfl
  | cons x xs ih => rw [List.foldl_cons, ih, hstep]

theorem names_parameters (w : Walk) (input : String) (ancestors : List Declaration)
    (nodes : List Node) : (w.parameters input ancestors nodes).names = w.names := by
  refine names_foldl (fun w n => ?_) nodes w
  split
  · exact names_value ..
  · rfl

theorem names_function (w : Walk) (input : String) (ancestors : List Declaration)
    (role : FunctionRole) (head : Head) (facts : FunctionFacts) (nodes : List Node) :
    (w.function input ancestors role head facts nodes).names = w.names := by
  unfold Walk.function
  split
  · rfl
  · split
    · rfl
    · exact (names_parameters ..).trans (names_push ..)

theorem names_bases (w : Walk) (input : String) (ancestors : List Declaration)
    (head : Head) (access : Visibility) (bs : List Base) :
    (w.bases input ancestors head access bs).names = w.names := by
  refine names_foldl (fun w b => ?_) bs w
  split
  · rfl
  · exact names_push ..

theorem qualifiedIn_ne (hn : name ≠ "") (ancestors : List Declaration) :
    qualifiedIn ancestors name ≠ "" := by
  unfold qualifiedIn qualify
  split
  · simp
  · exact hn

theorem specializationName_ne {template : String} {nodes : List Node}
    (h : specializationName? template nodes = some name) : name ≠ "" := by
  unfold specializationName? at h
  obtain ⟨arguments, -, h⟩ := Option.bind_eq_some_iff.1 h
  split at h
  · exact nomatch h
  · rw [← Option.some.inj h]
    simp

/-- `Registers input ancestors n name meaning`: inside `ancestors`, the node `n` enters
`name` in the table of names. -/
inductive Registers (input : String) (ancestors : List Declaration) :
    Node → String → NameMeaning → Prop where
  | record {head : Head} {facts : RecordFacts} {nodes : List Node} {name : String}
      {kind : DeclarationKind} (hn : head.name = some name)
      (hk : Walk.recordKind? facts.tag = some kind) :
      Registers input ancestors (.mk (.record head facts) nodes)
        (declare input ancestors kind head name).qualifiedName
        (.record (declare input ancestors kind head name))
  | specialization {head : Head} {facts : RecordFacts} {nodes : List Node} {name : String}
      {kind : DeclarationKind} (hn : head.name.bind (specializationName? · nodes) = some name)
      (hk : Walk.recordKind? facts.tag = some kind) :
      Registers input ancestors (.mk (.specialization head facts) nodes)
        (declare input ancestors kind head name).qualifiedName
        (.record (declare input ancestors kind head name))
  | typeAlias {head : Head} {target : String} {nodes : List Node} {name : String}
      (hn : head.name = some name) :
      Registers input ancestors (.mk (.typeAlias head (some target)) nodes)
        (declare input ancestors .unsupported head name).qualifiedName
        (.typeAlias (declare input ancestors .unsupported head name) target
          (scopesOf ancestors))
  | enumeration {head : Head} {nodes : List Node} {name : String}
      (hn : head.name = some name) :
      Registers input ancestors (.mk (.enumeration head) nodes)
        (declare input ancestors .unsupported head name).qualifiedName
        (.enumeration (declare input ancestors .unsupported head name))

section Registering

variable {P : String → NameMeaning → Prop}

private theorem names_record {facts : RecordFacts}
    {members : List Declaration → Walk → Walk}
    (hP : ∀ kind, Walk.recordKind? facts.tag = some kind →
      P (declare input ancestors kind head name).qualifiedName
        (.record (declare input ancestors kind head name)))
    (hmem : ∀ inside w', w'.names.All P → (members inside w').names.All P)
    (hw : w.names.All P) :
    (w.record input ancestors head facts name members).names.All P := by
  unfold Walk.record
  split
  · exact hw
  · rename_i kind hkind
    refine hmem _ _ ?_
    rw [names_bases]
    dsimp only
    rw [names_push]
    unfold Walk.name
    dsimp only
    split
    · exact hw.define (hP kind hkind)
    · exact hw.insert (hP kind hkind)

private theorem names_walkStep {n : Node} {members : List Declaration → Walk → Walk}
    (hP : ∀ name meaning, Registers input ancestors n name meaning → P name meaning)
    (hmem : ∀ inside w', w'.names.All P → (members inside w').names.All P)
    (hw : w.names.All P) : (walkStep input ancestors n members w).names.All P := by
  obtain ⟨payload, nodes⟩ := n
  cases payload with
  | namespaceDecl head =>
      refine hmem _ _ ?_
      dsimp only
      rwa [names_push]
  | record head facts =>
      unfold walkStep
      dsimp only [Node.payload_mk]
      split
      · rename_i name hname
        split
        · exact hw
        · exact names_record (fun kind hk => hP _ _ (.record hname hk)) hmem hw
      · exact hw
  | specialization head facts =>
      unfold walkStep
      dsimp only [Node.payload_mk]
      split
      · rename_i name hname
        exact names_record (fun kind hk => hP _ _ (.specialization hname hk)) hmem hw
      · exact hw
  | field head type =>
      exact (names_value ..).symm ▸ hw
  | function role head facts => exact (names_function ..).symm ▸ hw
  | typeAlias head target =>
      show (w.typeAlias input ancestors head target).names.All P
      unfold Walk.typeAlias
      split
      · rename_i name target hname
        split
        · exact hw
        · exact hw.insert (hP _ _ (.typeAlias hname))
      · exact hw
  | enumeration head =>
      show (w.enumeration input ancestors head).names.All P
      unfold Walk.enumeration
      split
      · rename_i name hname
        split
        · exact hw
        · exact hw.insert (hP _ _ (.enumeration hname))
      · exact hw
  | accessSpecifier access =>
      unfold walkStep
      dsimp only [Node.payload_mk]
      split <;> exact hw
  | parameter | templateArgument => exact hw
  | other => exact hmem ancestors w hw

/-- What is true of all that the nodes of a tree register is true of all names. -/
theorem names_walk
    (hP : ∀ n : Node, n.Within root → ∀ ancestors name meaning,
      Registers input ancestors n name meaning → P name meaning)
    (hw : w.names.All P) : (walk input ancestors root w).names.All P := by
  refine walk_induct (R := fun _ w w' => w.names.All P → w'.names.All P) ?_ ?_ ?_ ancestors w hw
  · exact fun _ _ h => h
  · exact fun h h' hw => h' (h hw)
  · intro n hn ancestors w members hmem hw
    exact names_walkStep (hP n hn ancestors) hmem hw

end Registering

/-- A node without an empty name registers declarations under their own names. -/
theorem Registers.registered {n : Node} {meaning : NameMeaning}
    (h : Registers input ancestors n name meaning) (hn : n.payload.IsNamed) :
    Registered name meaning := by
  cases h with
  | @record head facts nodes name kind hname hk =>
      refine ⟨qualifiedIn_ne (fun he => hn (by rw [hname, he])) ancestors, rfl, ?_⟩
      intro d hd
      rw [← NameMeaning.record.inj hd]
      exact isStructure_of_recordKind hk
  | @specialization head facts nodes name kind hname hk =>
      obtain ⟨template, -, hspecial⟩ := Option.bind_eq_some_iff.1 hname
      refine ⟨qualifiedIn_ne (specializationName_ne hspecial) ancestors, rfl, ?_⟩
      intro d hd
      rw [← NameMeaning.record.inj hd]
      exact isStructure_of_recordKind hk
  | typeAlias hname =>
      exact ⟨qualifiedIn_ne (fun he => hn (by rw [hname, he])) ancestors, rfl, nofun⟩
  | enumeration hname =>
      exact ⟨qualifiedIn_ne (fun he => hn (by rw [hname, he])) ancestors, rfl, nofun⟩

/-- A walk of a tree without empty names registers declarations under their own names. -/
theorem registered_walk (hroot : root.IsNamed) (hw : w.names.AllRegistered) :
    (walk input ancestors root w).names.AllRegistered :=
  names_walk (fun n hn _ _ _ h => h.registered (hroot n hn)) hw

end Walks

/-- What is in the table of names of a dump. -/
theorem registered_ofJson {input : String} {v : Value} {src : Source}
    (h : Source.ofJson? input v = some src) : src.names.AllRegistered := by
  obtain ⟨root, hroot, rfl⟩ := Option.map_eq_some_iff.1 h
  exact registered_walk (isNamed_ofJson hroot) (by intro p hp; exact nomatch hp)

/-! ## Cores that are looked up -/

namespace Source

variable {names : NameTable} {name : String} {s : Shape}

/-- What a core refers to from inside some scopes. -/
def lookup (names : NameTable) (scope : List String) (name : String) : String :=
  if (Builtin.kind? name).isSome then name else (names.resolve? name scope).getD name

theorem qualify_eq (names : NameTable) (scope : List String) (s : Shape) :
    qualify names scope s = s.mapNamed fun name c => .named (lookup names scope name) c := rfl

/-- A core that is looked up stays as it is or has a name of the table. -/
theorem lookup_eq_or_mem (names : NameTable) (scope : List String) (name : String) :
    lookup names scope name = name ∨ lookup names scope name ∈ names.names.map (·.1) := by
  unfold lookup
  split
  · exact .inl rfl
  · cases hr : names.resolve? name scope with
    | none => exact .inl rfl
    | some found => exact .inr (NameTable.resolve?_mem hr)

/-- What is looked up has what it had before and what all names of the table have. -/
theorem lookup_of_forall {P : String → Prop} (hnames : ∀ p ∈ names.names, P p.1)
    (hname : P name) (scope : List String) : P (lookup names scope name) := by
  rcases lookup_eq_or_mem names scope name with heq | hmem
  · rwa [heq]
  · obtain ⟨p, hp, hfound⟩ := List.mem_map.1 hmem
    exact hfound ▸ hnames p hp

theorem exists_of_aliasTarget (h : aliasTarget? names name = some s) :
    ∃ d target scope, names.get? name = some (.typeAlias d target scope) ∧
      s = qualify names scope (Shape.parse target) := by
  unfold aliasTarget? at h
  split at h
  · rename_i d target scope hget
    exact ⟨d, target, scope, hget, (Option.some.inj h).symm⟩
  · exact nomatch h

end Source

end DeclAtlas.Dump
