import DeclAtlas.Proofs.Dump.Walking

/-!
# The stops of a walk

A walk carries the stream along, so what it does to the stream is spread over all its
steps. `stops` is the walk without the stream: the nodes that are come to, in order, each
with the declarations around it and the access in force there. The stream is what one stop
after another puts on it, and what a stop puts on it does not depend on the others.

So a question about the stream of a tree is one about a single node and its place in the
tree: an entry comes of one stop, and the entries of a stop follow each other directly.

## Main results

* `entries_walk`: the stream is that of the stops, one after another.
* `within_of_mem_stops`: every stop is at a node of the tree.
-/

namespace DeclAtlas.Dump

open Text

variable {input : String} {ancestors : List Declaration} {head : Head} {n root : Node}
  {w w' w'' : Walk} {f g : Walk → Walk}

/-! ## Stops -/

/-- A node that a walk comes to. -/
structure Stop where
  /-- The declarations around the node, outermost first. -/
  ancestors : List Declaration
  /-- The access in force among the members of the innermost record. -/
  access : Visibility
  node : Node

/-- The declaration around the nodes inside `n`, and the access in force at their beginning,
if there is one. -/
def opened? (input : String) (ancestors : List Declaration) (n : Node) :
    Option (Declaration × Visibility) :=
  let record (head : Head) (facts : RecordFacts) (name : String) :=
    (Walk.recordKind? facts.tag).map fun kind =>
      (declare input ancestors kind head name, Walk.initialAccess kind)
  match n.payload with
  | .namespaceDecl head =>
    some (declare input ancestors .namespaceDecl head
      (head.name.getD Shape.anonymousNamespace), .invalid)
  | .record head facts =>
    if head.isImplicit then none else head.name.bind (record head facts)
  | .specialization head facts =>
    (head.name.bind (specializationName? · n.inner)).bind (record head facts)
  | _ => none

/-- The access in force after a node that opens nothing. -/
def accessAfter (ancestors : List Declaration) (access : Visibility) : Payload → Visibility
  | .accessSpecifier written =>
    if inRecord ancestors then (written.map Visibility.ofAccess).getD .invalid else access
  | _ => access

/-- The stops inside a node and the access in force after it, if `members` tells them for the
nodes inside. -/
def Stop.inside (input : String) (v : Stop)
    (members : List Declaration → Visibility → List Stop × Visibility) :
    List Stop × Visibility :=
  match opened? input v.ancestors v.node with
  | some (d, access) => ((members (v.ancestors ++ [d]) access).1, v.access)
  | none =>
    match v.node.payload with
    | .other => members v.ancestors v.access
    | payload => ([], accessAfter v.ancestors v.access payload)

mutual

/-- The stops of a walk at a node and inside it, and the access in force after it. -/
def stops (input : String) (ancestors : List Declaration) (access : Visibility) :
    Node → List Stop × Visibility
  | .mk payload nodes =>
    let here : Stop := ⟨ancestors, access, .mk payload nodes⟩
    let inside := here.inside input fun ancestors access =>
      stopsAll input ancestors access nodes
    (here :: inside.1, inside.2)

/-- The stops at nodes one after another. -/
def stopsAll (input : String) (ancestors : List Declaration) (access : Visibility) :
    List Node → List Stop × Visibility
  | [] => ([], access)
  | n :: rest =>
    let first := stops input ancestors access n
    let others := stopsAll input ancestors first.2 rest
    (first.1 ++ others.1, others.2)

end

/-- The stops of the walk of a syntax tree. -/
def Stop.ofTree (input : String) (root : Node) : List Stop := (stops input [] .invalid root).1

/-- What a stop puts on the stream: a step of a walk that goes no further. -/
def Stop.entries (input : String) (v : Stop) : List StreamEntry :=
  (walkStep input v.ancestors v.node (fun _ w => w) { access := v.access }).entries.toList

theorem stops_eq (input : String) (ancestors : List Declaration) (access : Visibility)
    (n : Node) :
    stops input ancestors access n =
      (⟨ancestors, access, n⟩ ::
        (Stop.inside input ⟨ancestors, access, n⟩ fun ancestors access =>
          stopsAll input ancestors access n.inner).1,
        (Stop.inside input ⟨ancestors, access, n⟩ fun ancestors access =>
          stopsAll input ancestors access n.inner).2) := by
  obtain ⟨payload, nodes⟩ := n
  rw [stops]
  rfl

/-! ## Parts of a walk that keep to themselves -/

theorem access_push (w : Walk) (input : String) (head : Head) (e : StreamEntry) :
    (w.push input head e).access = w.access := by
  unfold Walk.push
  split <;> rfl

/-- What `f` adds to the stream depends on nothing but the access in force, which is the
same afterwards. -/
structure Walk.Apart (f : Walk → Walk) : Prop where
  entries : ∀ w, (f w).entries.toList =
    w.entries.toList ++ (f { access := w.access }).entries.toList
  access : ∀ w, (f w).access = w.access

namespace Walk.Apart

theorem id : Apart fun w => w := ⟨fun _ => (List.append_nil _).symm, fun _ => rfl⟩

theorem comp (hg : Apart g) (hf : Apart f) : Apart fun w => g (f w) where
  entries w := by
    rw [hg.entries, hf.entries, hg.entries (f { access := w.access }), hf.access, hf.access,
      List.append_assoc]
  access w := (hg.access _).trans (hf.access w)

/-- The names do not matter. -/
theorem of_entries_eq (h : ∀ w, (f w).entries = w.entries) (ha : ∀ w, (f w).access = w.access) :
    Apart f where
  entries w := by rw [h, h, List.append_nil]
  access := ha

theorem push {e : Walk → StreamEntry} (he : ∀ w, e w = e { access := w.access }) :
    Apart fun w => w.push input head (e w) where
  entries w := by
    unfold Walk.push
    dsimp only
    split
    · exact (List.append_nil _).symm
    · rw [Array.toList_push, ← he w]
      rfl
  access w := access_push ..

theorem foldl {α : Type} {step : Walk → α → Walk} (hstep : ∀ x, Apart fun w => step w x)
    (xs : List α) : Apart fun w => xs.foldl step w := by
  induction xs with
  | nil => exact id
  | cons x xs ih => exact ih.comp (hstep x)

/-- The stream of several parts is the streams of the parts, one after another. -/
theorem entries_foldl {α : Type} {step : Walk → α → Walk}
    (hstep : ∀ x, Apart fun w => step w x) (xs : List α) (w : Walk) :
    (xs.foldl step w).entries.toList = w.entries.toList ++
      xs.flatMap fun x => (step { access := w.access } x).entries.toList := by
  induction xs generalizing w with
  | nil => exact (List.append_nil _).symm
  | cons x xs ih =>
      rw [List.foldl_cons, ih, (hstep x).entries, (hstep x).access, List.flatMap_cons,
        List.append_assoc]

/-- The access in force is put back after a part with its own. -/
theorem within (hf : Apart f) (access : Visibility) : Apart fun w => w.within access f where
  entries w := hf.entries { w with access := access }
  access _ := rfl

theorem name (f : NameTable → NameTable) : Apart fun w => w.name f :=
  of_entries_eq (fun _ => rfl) fun _ => rfl

theorem value (input : String) (ancestors : List Declaration) (kind : DeclarationKind)
    (head : Head) (type : Option String) :
    Apart fun w => w.value input ancestors kind head type := by
  unfold Walk.value
  split
  · exact id
  · exact push fun _ => rfl

theorem parameters (input : String) (ancestors : List Declaration) (nodes : List Node) :
    Apart fun w => w.parameters input ancestors nodes := by
  apply foldl
  intro n
  split
  · exact value ..
  · exact id

theorem function (input : String) (ancestors : List Declaration) (role : FunctionRole)
    (head : Head) (facts : FunctionFacts) (nodes : List Node) :
    Apart fun w => w.function input ancestors role head facts nodes := by
  unfold Walk.function
  split
  · exact id
  · split
    · exact id
    · exact ((parameters ..).within _).comp (push fun _ => rfl)

theorem bases (input : String) (ancestors : List Declaration) (head : Head)
    (access : Visibility) (bs : List Base) :
    Apart fun w => w.bases input ancestors head access bs := by
  apply foldl
  intro b
  split
  · exact id
  · exact push fun _ => rfl

theorem typeAlias (input : String) (ancestors : List Declaration) (head : Head)
    (target : Option String) : Apart fun w => w.typeAlias input ancestors head target := by
  unfold Walk.typeAlias
  split
  · split
    · exact id
    · exact name _
  · exact id

theorem enumeration (input : String) (ancestors : List Declaration) (head : Head) :
    Apart fun w => w.enumeration input ancestors head := by
  unfold Walk.enumeration
  split
  · split
    · exact id
    · exact name _
  · exact id

/-- A record with nothing inside it. -/
theorem record (input : String) (ancestors : List Declaration) (head : Head)
    (facts : RecordFacts) (name : String) :
    Apart fun w => w.record input ancestors head facts name fun _ w => w := by
  unfold Walk.record
  split
  · exact id
  · rename_i kind _
    have hpush : Apart fun w => w.push input head {
        declaration := declare input ancestors kind head name
        ancestors := ancestors
        spelling := none
        visibility := w.memberVisibility ancestors head
        flags := {} } := push fun _ => rfl
    exact ((bases ..).within _).comp (hpush.comp (.name _))

/-- A namespace with nothing inside it. -/
theorem enterNamespace (input : String) (ancestors : List Declaration) (head : Head) :
    Apart fun w => w.enterNamespace input ancestors head fun _ w => w :=
  (id.within _).comp (push fun _ => rfl)

end Walk.Apart

/-! ## The stream of the stops -/

/-- The walk `members` adds to the stream what the stops that `told` tells put on it. -/
def Tells (input : String) (members : List Declaration → Walk → Walk)
    (told : List Declaration → Visibility → List Stop × Visibility) : Prop :=
  ∀ ancestors w, (members ancestors w).entries.toList =
      w.entries.toList ++ (told ancestors w.access).1.flatMap (Stop.entries input) ∧
    (members ancestors w).access = (told ancestors w.access).2

section Steps

variable {members : List Declaration → Walk → Walk}
  {told : List Declaration → Visibility → List Stop × Visibility} {facts : RecordFacts}
  {name : String}

theorem entries_recordWith (ht : Tells input members told) {kind : DeclarationKind}
    (hk : Walk.recordKind? facts.tag = some kind) (w : Walk) :
    (w.record input ancestors head facts name members).entries.toList =
      (w.record input ancestors head facts name fun _ w => w).entries.toList ++
        (told (ancestors ++ [declare input ancestors kind head name])
          (Walk.initialAccess kind)).1.flatMap (Stop.entries input) := by
  unfold Walk.record
  rw [hk]
  dsimp only [Walk.within]
  rw [(ht _ _).1, (Walk.Apart.bases ..).access]

theorem entries_namespaceWith (ht : Tells input members told) (w : Walk) :
    (w.enterNamespace input ancestors head members).entries.toList =
      (w.enterNamespace input ancestors head fun _ w => w).entries.toList ++
        (told (ancestors ++ [declare input ancestors .namespaceDecl head
          (head.name.getD Shape.anonymousNamespace)]) .invalid).1.flatMap
            (Stop.entries input) := by
  unfold Walk.enterNamespace
  dsimp only [Walk.within]
  rw [(ht _ _).1]

/-- What a step adds to the stream is told by its stop and those inside it. -/
def StepTold (input : String) (ancestors : List Declaration) (n : Node)
    (members : List Declaration → Walk → Walk)
    (told : List Declaration → Visibility → List Stop × Visibility) (w : Walk) : Prop :=
  (walkStep input ancestors n members w).entries.toList = w.entries.toList ++
      (Stop.entries input ⟨ancestors, w.access, n⟩ ++
        (Stop.inside input ⟨ancestors, w.access, n⟩ told).1.flatMap (Stop.entries input)) ∧
    (walkStep input ancestors n members w).access =
      (Stop.inside input ⟨ancestors, w.access, n⟩ told).2

/-- A step at a node without others inside it that are walked. -/
theorem stepTold_of_apart (hf : Walk.Apart f)
    (hstep : ∀ members w, walkStep input ancestors n members w = f w)
    (hinside : ∀ access, Stop.inside input ⟨ancestors, access, n⟩ told = ([], access))
    (w : Walk) : StepTold input ancestors n members told w := by
  unfold StepTold Stop.entries
  rw [hinside, hstep, hstep]
  constructor
  · rw [hf.entries, List.flatMap_nil, List.append_nil]
  · exact hf.access w

theorem stepTold_record (ht : Tells input members told)
    (hstep : ∀ members w, walkStep input ancestors n members w =
      w.record input ancestors head facts name members)
    (hopened : opened? input ancestors n = (Walk.recordKind? facts.tag).map fun kind =>
      (declare input ancestors kind head name, Walk.initialAccess kind))
    (hinside : ∀ access, opened? input ancestors n = none →
      Stop.inside input ⟨ancestors, access, n⟩ told = ([], access))
    (w : Walk) : StepTold input ancestors n members told w := by
  cases hk : Walk.recordKind? facts.tag with
  | none =>
      have hidle : ∀ members (w : Walk),
          w.record input ancestors head facts name members = w := by
        intro members w
        unfold Walk.record
        rw [hk]
      refine stepTold_of_apart .id (fun members w => ?_) (fun access => ?_) w
      · rw [hstep, hidle]
      · exact hinside access (by rw [hopened, hk]; rfl)
  | some kind =>
      unfold StepTold Stop.entries Stop.inside
      dsimp only
      rw [hstep, hstep, hopened, hk, entries_recordWith ht hk,
        (Walk.Apart.record ..).entries, List.append_assoc]
      refine ⟨rfl, ?_⟩
      unfold Walk.record
      rw [hk]
      exact access_push ..

theorem stepTold_namespace (ht : Tells input members told) (head : Head)
    (nodes : List Node) (w : Walk) :
    StepTold input ancestors (.mk (.namespaceDecl head) nodes) members told w := by
  constructor
  · show (w.enterNamespace input ancestors head members).entries.toList = _
    rw [entries_namespaceWith ht, (Walk.Apart.enterNamespace ..).entries, List.append_assoc]
    rfl
  · exact access_push ..

theorem stepTold_accessSpecifier (written : Option String) (nodes : List Node) (w : Walk) :
    StepTold input ancestors (.mk (.accessSpecifier written) nodes) members told w := by
  unfold StepTold Stop.entries Stop.inside opened? walkStep accessAfter
  dsimp only [Node.payload_mk]
  split
  · exact ⟨by simp, rfl⟩
  · exact ⟨by simp, rfl⟩

/-- A step adds what its stop puts on the stream, and then what the nodes inside do. -/
theorem stepTold (ht : Tells input members told) (n : Node) (w : Walk) :
    StepTold input ancestors n members told w := by
  obtain ⟨payload, nodes⟩ := n
  cases payload with
  | namespaceDecl head => exact stepTold_namespace ht head nodes w
  | record head facts =>
      cases hn : head.name with
      | none =>
          refine stepTold_of_apart .id (fun members w => ?_) (fun access => ?_) w
          · simp [walkStep, hn]
          · simp [Stop.inside, opened?, hn, accessAfter]
      | some name =>
          cases hi : head.isImplicit with
          | true =>
              refine stepTold_of_apart .id (fun members w => ?_) (fun access => ?_) w
              · simp [walkStep, hn, hi]
              · simp [Stop.inside, opened?, hi, accessAfter]
          | false =>
              have hstep : ∀ members w,
                  walkStep input ancestors (.mk (.record head facts) nodes) members w =
                    w.record input ancestors head facts name members := by
                intro members w
                simp [walkStep, hn, hi]
              refine stepTold_record ht hstep ?_ (fun access hnone => ?_) w
              · simp [opened?, hn, hi]
              · simp [Stop.inside, hnone, accessAfter]
  | specialization head facts =>
      cases hn : head.name.bind (specializationName? · nodes) with
      | none =>
          refine stepTold_of_apart .id (fun members w => ?_) (fun access => ?_) w
          · simp [walkStep, hn]
          · simp [Stop.inside, opened?, hn, accessAfter]
      | some name =>
          have hstep : ∀ members w,
              walkStep input ancestors (.mk (.specialization head facts) nodes) members w =
                w.record input ancestors head facts name members := by
            intro members w
            simp [walkStep, hn]
          refine stepTold_record ht hstep ?_ (fun access hnone => ?_) w
          · simp [opened?, hn]
          · simp [Stop.inside, hnone, accessAfter]
  | field head type => exact stepTold_of_apart (.value ..) (fun _ _ => rfl) (fun _ => rfl) w
  | function role head facts =>
      exact stepTold_of_apart (.function ..) (fun _ _ => rfl) (fun _ => rfl) w
  | typeAlias head target =>
      exact stepTold_of_apart (.typeAlias ..) (fun _ _ => rfl) (fun _ => rfl) w
  | enumeration head =>
      exact stepTold_of_apart (.enumeration ..) (fun _ _ => rfl) (fun _ => rfl) w
  | accessSpecifier written => exact stepTold_accessSpecifier written nodes w
  | parameter | templateArgument =>
      exact stepTold_of_apart .id (fun _ _ => rfl) (fun _ => rfl) w
  | other => exact ht ancestors w

end Steps

mutual

/-- A walk adds what its stops put on the stream. -/
theorem entries_walk (input : String) (ancestors : List Declaration) :
    ∀ (n : Node) (w : Walk), (walk input ancestors n w).entries.toList = w.entries.toList ++
        (stops input ancestors w.access n).1.flatMap (Stop.entries input) ∧
      (walk input ancestors n w).access = (stops input ancestors w.access n).2
  | .mk payload nodes, w => by
      rw [walk_eq_step, stops_eq]
      exact stepTold (fun ancestors w => entries_walkAll input ancestors nodes w) _ w

theorem entries_walkAll (input : String) (ancestors : List Declaration) :
    ∀ (nodes : List Node) (w : Walk),
      (walkAll input ancestors nodes w).entries.toList = w.entries.toList ++
        (stopsAll input ancestors w.access nodes).1.flatMap (Stop.entries input) ∧
      (walkAll input ancestors nodes w).access = (stopsAll input ancestors w.access nodes).2
  | [], w => by
      rw [walkAll, stopsAll]
      exact ⟨(List.append_nil _).symm, rfl⟩
  | n :: rest, w => by
      obtain ⟨hfirst, haccess⟩ := entries_walk input ancestors n w
      obtain ⟨hrest, hlast⟩ := entries_walkAll input ancestors rest (walk input ancestors n w)
      rw [haccess] at hrest hlast
      rw [walkAll, stopsAll]
      constructor
      · rw [hrest, hfirst, List.flatMap_append, List.append_assoc]
      · exact hlast

end

/-- The stream of a syntax tree is that of its stops, one after another. -/
theorem entries_ofTree (input : String) (root : Node) :
    (Walk.ofTree input root).entries.toList =
      (Stop.ofTree input root).flatMap (Stop.entries input) :=
  (entries_walk input [] root {}).1

/-! ## Where stops are -/

section Places

variable {P : List Declaration → Node → Prop}

mutual

private theorem forall_stops
    (hopen : ∀ ancestors n d access, P ancestors n → opened? input ancestors n = some (d, access) →
      ∀ m ∈ n.inner, P (ancestors ++ [d]) m)
    (hother : ∀ ancestors n, P ancestors n → n.payload = .other → ∀ m ∈ n.inner, P ancestors m) :
    ∀ (n : Node) (ancestors : List Declaration) (access : Visibility), P ancestors n →
      ∀ v ∈ (stops input ancestors access n).1, P v.ancestors v.node
  | .mk payload nodes, ancestors, access, hn => by
      have hall := forall_stopsAll hopen hother nodes
      intro v hv
      rw [stops_eq] at hv
      rcases List.mem_cons.1 hv with rfl | hv
      · exact hn
      · unfold Stop.inside at hv
        dsimp only at hv
        split at hv
        · rename_i d inner hd
          exact hall _ _ (hopen _ _ _ _ hn hd) v hv
        · split at hv
          · rename_i hother'
            exact hall _ _ (hother _ _ hn hother') v hv
          · exact nomatch hv

private theorem forall_stopsAll
    (hopen : ∀ ancestors n d access, P ancestors n → opened? input ancestors n = some (d, access) →
      ∀ m ∈ n.inner, P (ancestors ++ [d]) m)
    (hother : ∀ ancestors n, P ancestors n → n.payload = .other → ∀ m ∈ n.inner, P ancestors m) :
    ∀ (nodes : List Node) (ancestors : List Declaration) (access : Visibility),
      (∀ n ∈ nodes, P ancestors n) →
      ∀ v ∈ (stopsAll input ancestors access nodes).1, P v.ancestors v.node
  | [], _, _, _ => by
      intro v hv
      rw [stopsAll] at hv
      exact nomatch hv
  | n :: rest, ancestors, access, hnodes => by
      obtain ⟨hn, hrest⟩ := List.forall_mem_cons.1 hnodes
      intro v hv
      rw [stopsAll] at hv
      rcases List.mem_append.1 hv with hv | hv
      · exact forall_stops hopen hother n _ _ hn v hv
      · exact forall_stopsAll hopen hother rest _ _ hrest v hv

end

/-- What is true at a node and of all that it leads on to is true at every stop. -/
theorem stops_induct
    (hopen : ∀ ancestors n d access, P ancestors n → opened? input ancestors n = some (d, access) →
      ∀ m ∈ n.inner, P (ancestors ++ [d]) m)
    (hother : ∀ ancestors n, P ancestors n → n.payload = .other → ∀ m ∈ n.inner, P ancestors m)
    {access : Visibility} (hn : P ancestors n) :
    ∀ v ∈ (stops input ancestors access n).1, P v.ancestors v.node :=
  forall_stops hopen hother n ancestors access hn

/-- Every stop is at a node of the tree. -/
theorem within_of_mem_stops {v : Stop} (hv : v ∈ Stop.ofTree input root) :
    v.node.Within root :=
  stops_induct (P := fun _ n => n.Within root) (fun _ _ _ _ hn _ _ hm => hn.inner hm)
    (fun _ _ hn _ _ hm => hn.inner hm) (.refl root) v hv

end Places

end DeclAtlas.Dump
