import DeclAtlas.Proofs.Dump.StopEntries

/-!
# Access of members

A walk carries the access in force along and puts back the former one at the end of what has
its own. Here the same is said without a walk, by where a node is written. What is written
directly inside one and the same declaration is a frame; nodes that declare nothing are looked
through. A member has the access written for it, or else that of the last access specifier
before it in its frame, or else the one its frame begins with. What stands inside other
declarations, before it or around it, has no part in this.

## Main results

* `entries_ofTree_places`: the stream is what one place after another puts on it, each with
  the access that its frame grants there.
* `accessIn_congr`: what is written inside the nodes of a frame has no part in its access.
* `frame_of_mem_places`: what comes before a place are nodes of its own frame.
* `visibility_ofTree`: the visibility of every entry of a stream.
-/

namespace DeclAtlas.Dump

variable {input : String} {ancestors : List Declaration} {n root : Node}

/-! ## Frames -/

mutual

/-- The nodes of a frame that are written at a node: the node itself, unless it declares
nothing and is looked through. -/
def Node.shown : Node → List Node
  | .mk payload nodes =>
    match payload with
    | .other => Node.shownAll nodes
    | payload => [.mk payload nodes]

/-- The nodes of a frame that are written at some nodes. -/
def Node.shownAll : List Node → List Node
  | [] => []
  | n :: rest => n.shown ++ Node.shownAll rest

end

/-- A node in its frame. -/
structure Place where
  /-- The declarations around the frame, outermost first. -/
  ancestors : List Declaration
  /-- The nodes of the frame that come before the node. -/
  before : List Node
  node : Node

mutual

/-- The places at a node and inside it, if `before` comes before it in its frame. What is
written inside a declaration is a frame of its own. -/
def places (input : String) (ancestors : List Declaration) (before : List Node) :
    Node → List Place
  | .mk payload nodes =>
    match payload with
    | .other => placesAll input ancestors before nodes
    | payload =>
      ⟨ancestors, before, .mk payload nodes⟩ ::
        match opened? input ancestors (.mk payload nodes) with
        | some (d, _) => placesAll input (ancestors ++ [d]) [] nodes
        | none => []

/-- The places at nodes that follow one another in their frame. -/
def placesAll (input : String) (ancestors : List Declaration) (before : List Node) :
    List Node → List Place
  | [] => []
  | n :: rest =>
    places input ancestors before n ++ placesAll input ancestors (before ++ n.shown) rest

end

/-- The places of a syntax tree. -/
def Place.ofTree (input : String) (root : Node) : List Place := places input [] [] root

/-- The access that a node grants to what follows it in its frame, if it is an access
specifier. -/
def Payload.grants? : Payload → Option Visibility
  | .accessSpecifier written => some ((written.map Visibility.ofAccess).getD .invalid)
  | _ => none

/-- The access in force after the nodes `before` of a frame. It is the one granted last, or
the one that a record begins with; outside records there is none. -/
def accessIn (ancestors : List Declaration) (before : List Node) : Visibility :=
  match ancestors.getLast? with
  | some d =>
    if d.kind.isStructure then
      (before.filterMap (·.payload.grants?)).getLast?.getD (Walk.initialAccess d.kind)
    else .invalid
  | none => .invalid

/-- A walk that comes to the place. -/
def Place.stop (p : Place) : Stop := ⟨p.ancestors, accessIn p.ancestors p.before, p.node⟩

/-! ## The places of a walk -/

theorem accessIn_of_outside (h : inRecord ancestors = false) (before : List Node) :
    accessIn ancestors before = .invalid := by
  unfold inRecord at h
  unfold accessIn
  cases hd : ancestors.getLast? with
  | none => rfl
  | some d =>
      rw [hd, Option.any_some] at h
      simp only [h, Bool.false_eq_true, if_false]

theorem accessIn_of_inRecord (h : inRecord ancestors = true) :
    ∃ d, ancestors.getLast? = some d ∧ ∀ before, accessIn ancestors before =
      (before.filterMap (·.payload.grants?)).getLast?.getD (Walk.initialAccess d.kind) := by
  unfold inRecord at h
  unfold accessIn
  cases hd : ancestors.getLast? with
  | none =>
      rw [hd] at h
      exact nomatch h
  | some d =>
      rw [hd, Option.any_some] at h
      exact ⟨d, rfl, fun before => if_pos h⟩

/-- What is written inside the nodes of a frame has no part in its access. -/
theorem accessIn_congr {before before' : List Node}
    (h : before.map (·.payload) = before'.map (·.payload)) (ancestors : List Declaration) :
    accessIn ancestors before = accessIn ancestors before' := by
  have hgrants : before.filterMap (·.payload.grants?) = before'.filterMap (·.payload.grants?) := by
    have hmapped := congrArg (List.filterMap Payload.grants?) h
    rwa [List.filterMap_map, List.filterMap_map] at hmapped
  cases hr : inRecord ancestors with
  | false => rw [accessIn_of_outside hr, accessIn_of_outside hr]
  | true =>
      obtain ⟨d, -, haccess⟩ := accessIn_of_inRecord hr
      rw [haccess, haccess, hgrants]

theorem accessAfter_eq (ancestors : List Declaration) (access : Visibility)
    (payload : Payload) :
    accessAfter ancestors access payload =
      if inRecord ancestors then payload.grants?.getD access else access := by
  cases payload with
  | accessSpecifier written => rfl
  | _ => exact (ite_self access).symm

/-- A node changes the access in force as it does on a walk. -/
theorem accessIn_concat (ancestors : List Declaration) (before : List Node) (n : Node) :
    accessIn ancestors (before ++ [n]) =
      accessAfter ancestors (accessIn ancestors before) n.payload := by
  rw [accessAfter_eq]
  cases hr : inRecord ancestors with
  | false => rw [accessIn_of_outside hr, accessIn_of_outside hr, if_neg Bool.false_ne_true]
  | true =>
      obtain ⟨d, -, haccess⟩ := accessIn_of_inRecord hr
      rw [haccess, haccess, if_pos rfl, List.filterMap_append]
      cases hg : n.payload.grants? with
      | none => simp [hg]
      | some access => simp [hg]

/-- Every frame begins with the access that a walk enters it with. -/
theorem accessIn_opened {d : Declaration} {access : Visibility}
    (h : opened? input ancestors n = some (d, access)) (outer : List Declaration) :
    accessIn (outer ++ [d]) [] = access := by
  unfold accessIn
  rw [List.getLast?_concat]
  rcases opened?_eq_some h with ⟨hk, rfl⟩ | ⟨hk, rfl⟩
  · dsimp only
    rw [hk]
    rfl
  · exact if_pos hk

/-- What a place puts on the stream. -/
def Place.entries (input : String) (p : Place) : List StreamEntry := p.stop.entries input

theorem shown_of_ne_other {payload : Payload} (h : payload ≠ .other) (nodes : List Node) :
    Node.shown (.mk payload nodes) = [.mk payload nodes] := by
  unfold Node.shown
  split
  · exact absurd rfl h
  · rfl

theorem places_of_ne_other {payload : Payload} (h : payload ≠ .other) (nodes : List Node)
    (ancestors : List Declaration) (before : List Node) :
    places input ancestors before (.mk payload nodes) =
      ⟨ancestors, before, .mk payload nodes⟩ ::
        match opened? input ancestors (.mk payload nodes) with
        | some (d, _) => placesAll input (ancestors ++ [d]) [] nodes
        | none => [] := by
  unfold places
  split
  · exact absurd rfl h
  · rfl

theorem inside_of_ne_other {v : Stop} (h : v.node.payload ≠ .other)
    (members : List Declaration → Visibility → List Stop × Visibility) :
    v.inside input members =
      match opened? input v.ancestors v.node with
      | some (d, access) => ((members (v.ancestors ++ [d]) access).1, v.access)
      | none => ([], accessAfter v.ancestors v.access v.node.payload) := by
  unfold Stop.inside
  cases opened? input v.ancestors v.node with
  | some o => rfl
  | none =>
      dsimp only
      split
      · exact absurd ‹_› h
      · rfl

/-- What opens a frame grants nothing outside it. -/
theorem accessAfter_of_opened {d : Declaration} {access : Visibility}
    (h : opened? input ancestors n = some (d, access)) (outside : Visibility) :
    accessAfter ancestors outside n.payload = outside := by
  unfold accessAfter
  split
  · rename_i written hp
    unfold opened? at h
    rw [hp] at h
    exact nomatch h
  · rfl

mutual

/-- The stops of a walk put on the stream what the places do, and the access in force after
the walk is that of the frame. -/
theorem stops_places (input : String) :
    ∀ (n : Node) (ancestors : List Declaration) (before : List Node),
      (stops input ancestors (accessIn ancestors before) n).1.flatMap (Stop.entries input) =
          (places input ancestors before n).flatMap (Place.entries input) ∧
        (stops input ancestors (accessIn ancestors before) n).2 =
          accessIn ancestors (before ++ n.shown)
  | .mk payload nodes, ancestors, before => by
      rw [stops_eq]
      by_cases hother : payload = .other
      · subst hother
        exact stopsAll_places input nodes ancestors before
      · have hpayload : (⟨ancestors, accessIn ancestors before, .mk payload nodes⟩ :
            Stop).node.payload ≠ .other := hother
        rw [inside_of_ne_other hpayload, places_of_ne_other hother, shown_of_ne_other hother,
          accessIn_concat]
        cases ho : opened? input ancestors (.mk payload nodes) with
        | none => exact ⟨rfl, rfl⟩
        | some o =>
            obtain ⟨d, access⟩ := o
            have hinside := (stopsAll_places input nodes (ancestors ++ [d]) []).1
            rw [accessIn_opened ho] at hinside
            refine ⟨?_, (accessAfter_of_opened ho _).symm⟩
            exact congrArg (Stop.entries input _ ++ ·) hinside

theorem stopsAll_places (input : String) :
    ∀ (nodes : List Node) (ancestors : List Declaration) (before : List Node),
      (stopsAll input ancestors (accessIn ancestors before) nodes).1.flatMap
            (Stop.entries input) =
          (placesAll input ancestors before nodes).flatMap (Place.entries input) ∧
        (stopsAll input ancestors (accessIn ancestors before) nodes).2 =
          accessIn ancestors (before ++ Node.shownAll nodes)
  | [], ancestors, before => by
      rw [stopsAll, placesAll, Node.shownAll, List.append_nil]
      exact ⟨rfl, rfl⟩
  | n :: rest, ancestors, before => by
      obtain ⟨hfirst, haccess⟩ := stops_places input n ancestors before
      obtain ⟨hrest, hlast⟩ := stopsAll_places input rest ancestors (before ++ n.shown)
      rw [stopsAll, placesAll, Node.shownAll, ← List.append_assoc]
      dsimp only
      rw [haccess, List.flatMap_append, List.flatMap_append, hfirst, hrest, hlast]
      exact ⟨rfl, rfl⟩

end

/-- The stream of a syntax tree is that of its places, one after another. -/
theorem entries_ofTree_places (input : String) (root : Node) :
    (Walk.ofTree input root).entries.toList =
      (Place.ofTree input root).flatMap (Place.entries input) := by
  rw [entries_ofTree]
  exact (stops_places input root [] []).1

/-! ## Where places are -/

/-- The frames of a syntax tree, with the declarations around them and their nodes. -/
inductive Frame (input : String) (root : Node) : List Declaration → List Node → Prop where
  /-- What is inside no declaration. -/
  | outermost : Frame input root [] root.shown
  /-- What is inside the declaration of a node. -/
  | inside {ancestors : List Declaration} {nodes : List Node} {n : Node} {d : Declaration}
      {access : Visibility} (hf : Frame input root ancestors nodes) (hn : n ∈ nodes)
      (ho : opened? input ancestors n = some (d, access)) :
      Frame input root (ancestors ++ [d]) (Node.shownAll n.inner)

/-- The place is in a frame of the tree. -/
def Place.Framed (input : String) (root : Node) (p : Place) : Prop :=
  ∃ after, Frame input root p.ancestors (p.before ++ p.node :: after)

mutual

private theorem framed_of_places :
    ∀ (n : Node) (ancestors : List Declaration) (before after : List Node),
      Frame input root ancestors (before ++ (n.shown ++ after)) →
      ∀ p ∈ places input ancestors before n, p.Framed input root
  | .mk payload nodes, ancestors, before, after, hf => by
      by_cases hother : payload = .other
      · subst hother
        exact framed_of_placesAll nodes ancestors before after hf
      · rw [shown_of_ne_other hother] at hf
        rw [places_of_ne_other hother]
        refine List.forall_mem_cons.2 ⟨⟨after, hf⟩, ?_⟩
        cases ho : opened? input ancestors (.mk payload nodes) with
        | none => exact fun p hp => nomatch hp
        | some o =>
            have hinside := Frame.inside hf (List.mem_append_right before List.mem_cons_self) ho
            refine framed_of_placesAll nodes _ [] [] ?_
            rw [List.append_nil]
            exact hinside

private theorem framed_of_placesAll :
    ∀ (nodes : List Node) (ancestors : List Declaration) (before after : List Node),
      Frame input root ancestors (before ++ (Node.shownAll nodes ++ after)) →
      ∀ p ∈ placesAll input ancestors before nodes, p.Framed input root
  | [], _, _, _, _ => by
      intro p hp
      rw [placesAll] at hp
      exact nomatch hp
  | n :: rest, ancestors, before, after, hf => by
      rw [Node.shownAll, List.append_assoc] at hf
      intro p hp
      rw [placesAll] at hp
      rcases List.mem_append.1 hp with hp | hp
      · exact framed_of_places n _ _ _ hf p hp
      · refine framed_of_placesAll rest _ _ after ?_ p hp
        rw [List.append_assoc]
        exact hf

end

/-- What comes before a place are nodes of its own frame. -/
theorem frame_of_mem_places {p : Place} (hp : p ∈ Place.ofTree input root) :
    p.Framed input root := by
  refine framed_of_places root [] [] [] ?_ p hp
  rw [List.append_nil]
  exact .outermost

/-! ## Visibility -/

/-- The visibility of a member in its place: the access written for it, or the one in force
in its frame. -/
def Place.visibility (p : Place) (head : Head) : Visibility :=
  match head.access with
  | some written => .ofAccess written
  | none => accessIn p.ancestors p.before

theorem visibility_stop (p : Place) (head : Head) : p.stop.visibility head = p.visibility head := by
  unfold Stop.visibility Walk.memberVisibility Place.visibility Place.stop
  cases head.access with
  | some written => rfl
  | none =>
      cases hr : inRecord p.ancestors with
      | true => rfl
      | false => exact (accessIn_of_outside hr p.before).symm

/-- The entries of a place have the visibility that its frame gives them. -/
structure Place.Scoped (input : String) (p : Place) : Prop where
  /-- A record, field, method or function is declared by the node of the place. -/
  member : ∀ e ∈ p.entries input,
    e.declaration.kind.isStructure = true ∨ e.declaration.kind = .field ∨
      e.declaration.kind = .method ∨ e.declaration.kind = .function →
    ∃ head, p.node.payload.head? = some head ∧ e.ancestors = p.ancestors ∧
      e.declaration =
        declare input p.ancestors e.declaration.kind head e.declaration.identifier ∧
      e.visibility = p.visibility head
  /-- It is the same whatever is written inside the nodes that come before. -/
  sheltered : ∀ before, before.map (·.payload) = p.before.map (·.payload) →
    ∀ head, Place.visibility ⟨p.ancestors, before, p.node⟩ head = p.visibility head
  /-- A parameter is written inside the node; it has the access written for it, or none. -/
  parameter : ∀ e ∈ p.entries input, e.declaration.kind = .parameter →
    WrittenParameter input p.ancestors p.node.inner e

theorem scoped_of_place (input : String) (p : Place) : p.Scoped input where
  member e he hk := by
    have own : ∀ {head}, Declares input p.stop head e →
        ∃ head, p.node.payload.head? = some head ∧ e.ancestors = p.ancestors ∧
          e.declaration =
            declare input p.ancestors e.declaration.kind head e.declaration.identifier ∧
          e.visibility = p.visibility head := fun hd =>
      ⟨_, hd.payload, hd.ancestors, hd.declaration, hd.visibility.trans (visibility_stop p _)⟩
    cases puts_of_mem he with
    | scope ho hd hr =>
        rcases kind_of_opened ho with hn | hs
        · rw [hd, hn] at hk
          exact absurd hk (by decide)
        · obtain ⟨head, hdeclares⟩ := hr hs
          exact own hdeclares
    | base _ _ hb =>
        obtain ⟨b, -, hw⟩ := hb
        rw [hw.kind] at hk
        exact absurd hk (by decide)
    | field _ _ hd => exact own hd
    | function _ hf =>
        rcases hf with ⟨-, hd⟩ | hw
        · exact own hd
        · rw [hw.kind] at hk
          exact absurd hk (by decide)
  sheltered before hb head := by
    unfold Place.visibility
    rw [accessIn_congr hb]
  parameter e he hk := by
    cases puts_of_mem he with
    | scope ho hd _ =>
        have hscope := kind_of_opened ho
        rw [← hd, hk] at hscope
        exact absurd hscope (by decide)
    | base _ _ hb =>
        obtain ⟨b, -, hw⟩ := hb
        exact nomatch hw.kind.symm.trans hk
    | field _ hf _ => exact nomatch hf.symm.trans hk
    | function _ hf =>
        rcases hf with ⟨hf, -⟩ | hw
        · rw [hk] at hf
          exact absurd hf (by decide)
        · exact hw

/-- The stream of a syntax tree is what its places put on it. Each place is in a frame of the
tree. What its node declares has the access written for it; or else, inside a record, the one
granted last before it in the same frame or the one the record begins with; or else none. -/
theorem visibility_ofTree (input : String) (root : Node) :
    (Walk.ofTree input root).entries.toList =
        (Place.ofTree input root).flatMap (Place.entries input) ∧
      ∀ p ∈ Place.ofTree input root, p.Framed input root ∧ p.Scoped input :=
  ⟨entries_ofTree_places input root, fun p hp => ⟨frame_of_mem_places hp, scoped_of_place input p⟩⟩

/-- A class with a struct inside it, which has an access specifier of its own; another one
stands in a node that declares nothing. -/
def Node.scopes : Node :=
  let field (name : String) : Node := .mk (.field { name := some name } (some "int")) []
  .mk (.record { name := some "C" } { tag := some "class" }) [
    field "a",
    .mk (.record { name := some "D" } {}) [
      field "x", .mk (.accessSpecifier (some "protected")) [], field "y"],
    field "b",
    .mk .other [.mk (.accessSpecifier (some "public")) [], field "c"],
    field "d"]

example : (Walk.ofTree "s.hpp" Node.scopes).entries.toList.map
      (fun e => (e.declaration.qualifiedName, e.visibility)) =
    [("C", .invalid), ("C::a", .privateAccess), ("C::D", .privateAccess),
      ("C::D::x", .publicAccess), ("C::D::y", .protectedAccess), ("C::b", .privateAccess),
      ("C::c", .publicAccess), ("C::d", .publicAccess)] := by
  decide +kernel

end DeclAtlas.Dump
