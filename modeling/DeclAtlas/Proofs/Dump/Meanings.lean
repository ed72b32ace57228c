import DeclAtlas.Proofs.Dump.Lookups
import DeclAtlas.Proofs.Dump.Stops

/-!
# What names mean

The first registration of a name decides what the name is for good. An enum or alias stays as
it is, whatever is registered under its name later, and a record stays a record. All that can
change is the declaration of a record, and only a definition changes it: a record is known by
its last definition, or by the first declaration of it as long as there is no definition.

A walk registers one name at most at each of its stops, and what a stop registers does not
depend on the others. So the table of a tree is filled by its stops, one after another, and a
record whose name no enum or alias took before is known by its last definition in the tree.

## Main results

* `get?_perform`: what one registration makes of the meaning of a name.
* `get?_ofRegistrations`: the meaning of a name after any registrations.
* `names_ofTree`: the table of a tree is filled by the registrations of its stops.
* `names_settled`: what a name means, in any table and in that of a tree.
-/

namespace DeclAtlas.Dump

/-! ## Meanings after registrations -/

namespace NameMeaning

/-- Does the name stand for a record? -/
def isRecord : NameMeaning → Bool
  | record _ => true
  | enumeration _ | typeAlias .. => false

/-- A record by the last definition of it, if there is one; an enum or alias as it is. -/
def defined (last? : Option Declaration) : NameMeaning → NameMeaning
  | record d => record (last?.getD d)
  | m => m

variable {m : NameMeaning}

theorem exists_of_isRecord (h : m.isRecord = true) : ∃ d, m = record d := by
  cases m with
  | record d => exact ⟨d, rfl⟩
  | enumeration | typeAlias => exact nomatch h

theorem defined_of_not_record (h : m.isRecord = false) (last? : Option Declaration) :
    m.defined last? = m := by
  cases m with
  | record d => exact nomatch h
  | enumeration | typeAlias => rfl

theorem defined_none (m : NameMeaning) : m.defined none = m := by
  cases m <;> rfl

/-- Of two definitions the later one counts. -/
theorem defined_defined (m : NameMeaning) (earlier? later? : Option Declaration) :
    (m.defined earlier?).defined later? = m.defined (later?.or earlier?) := by
  cases m with
  | record d => cases later? <;> rfl
  | enumeration | typeAlias => rfl

end NameMeaning

namespace Registration

/-- What the name means if it is registered for the first time. -/
def meaning : Registration → NameMeaning
  | insert _ meaning => meaning
  | define _ declaration => .record declaration

/-- The definition of the record `q`, if this is one. -/
def definition? (q : String) : Registration → Option Declaration
  | insert .. => none
  | define name declaration => if name = q then some declaration else none

theorem definition?_define (q : String) (d : Declaration) :
    (define q d).definition? q = some d :=
  if_pos rfl

theorem definition?_of_ne {r : Registration} {q : String} (h : r.name ≠ q) :
    r.definition? q = none := by
  cases r with
  | insert => rfl
  | define => exact if_neg h

end Registration

namespace NameTable

variable {q : String} {rs earlier later : List Registration} {r first : Registration}
  {d : Declaration}

/-- The last definition of the record `q`. -/
def lastDefinition? (q : String) (rs : List Registration) : Option Declaration :=
  (rs.filterMap (·.definition? q)).getLast?

theorem lastDefinition?_concat (q : String) (rs : List Registration) (r : Registration) :
    lastDefinition? q (rs ++ [r]) = (r.definition? q).or (lastDefinition? q rs) := by
  unfold lastDefinition?
  rw [List.filterMap_append, List.getLast?_append]
  cases h : r.definition? q <;> simp [h]

theorem lastDefinition?_eq_none (h : ∀ r ∈ rs, r.definition? q = none) :
    lastDefinition? q rs = none := by
  unfold lastDefinition?
  rw [List.filterMap_eq_nil_iff.2 h]
  rfl

/-- The last definition is the one that no other comes after. -/
theorem lastDefinition?_of_later (h : rs = earlier ++ .define q d :: later)
    (hlater : ∀ r ∈ later, r.definition? q = none) : lastDefinition? q rs = some d := by
  unfold lastDefinition?
  rw [h, List.filterMap_append,
    List.filterMap_cons_some (Registration.definition?_define q d),
    List.filterMap_eq_nil_iff.2 hlater, List.getLast?_concat]

/-- A registration settles what its own name means if nothing did before. After that it can
only define a record anew, and no other name changes. -/
theorem get?_perform (t : NameTable) (r : Registration) (q : String) :
    (r.perform t).get? q =
      if r.name = q then some (((t.get? q).getD r.meaning).defined (r.definition? q))
      else t.get? q := by
  by_cases hq : r.name = q
  · subst hq
    rw [if_pos rfl]
    cases r with
    | insert name m =>
        show (t.insert name m).get? name = some (((t.get? name).getD m).defined none)
        rw [get?_insert_self, NameMeaning.defined_none]
    | define name d =>
        show (t.define name d).get? name = some (((t.get? name).getD (.record d)).defined
          ((Registration.define name d).definition? name))
        rw [get?_define_self, Registration.definition?_define]
        cases t.get? name with
        | none => rfl
        | some m => cases m <;> rfl
  · rw [if_neg hq]
    cases r with
    | insert name m => exact get?_insert_other t m hq
    | define name d => exact get?_define_other t d hq

theorem ofRegistrations_concat (rs : List Registration) (r : Registration) :
    ofRegistrations (rs ++ [r]) = r.perform (ofRegistrations rs) := by
  unfold ofRegistrations
  rw [List.foldl_append, List.foldl_cons, List.foldl_nil]

/-- The first registration of a name settles its meaning, but for the definitions of a
record, of which the last one counts. -/
theorem get?_ofRegistrations (rs : List Registration) (q : String) :
    (ofRegistrations rs).get? q =
      (rs.find? (·.name = q)).map fun first =>
        first.meaning.defined (lastDefinition? q rs) := by
  induction rs using List.reverseRecOn with
  | nil => rfl
  | append_singleton rs r ih =>
      rw [ofRegistrations_concat, get?_perform, ih, List.find?_append, lastDefinition?_concat]
      by_cases hq : r.name = q
      · cases hfirst : rs.find? (·.name = q) with
        | none =>
            -- Only `r` mentions the name, so no definition of it came before.
            have hnone : lastDefinition? q rs = none := by
              refine lastDefinition?_eq_none fun x hx => Registration.definition?_of_ne ?_
              simpa using List.find?_eq_none.1 hfirst x hx
            simp [hq, hnone]
        | some first => simp [hq, NameMeaning.defined_defined]
      · simp [hq, Registration.definition?_of_ne hq]

/-- Registrations of other names make no difference. -/
theorem get?_filter (rs : List Registration) (q : String) :
    (ofRegistrations (rs.filter (·.name = q))).get? q = (ofRegistrations rs).get? q := by
  induction rs using List.reverseRecOn with
  | nil => rfl
  | append_singleton rs r ih =>
      rw [List.filter_append, ofRegistrations_concat, get?_perform]
      by_cases hq : r.name = q
      · rw [List.filter_cons_of_pos (by simpa using hq), List.filter_nil,
          ofRegistrations_concat, get?_perform, ih]
      · rw [List.filter_cons_of_neg (by simpa using hq), List.filter_nil, List.append_nil,
          if_neg hq, ih]

/-- What the name `q` means in the table that `rs` fill, and in all that it grows into. -/
structure Settled (q : String) (rs : List Registration) : Prop where
  unknown_iff : (ofRegistrations rs).get? q = none ↔ ∀ r ∈ rs, r.name ≠ q
  /-- An enum or alias that came first stays as it is. -/
  kept : ∀ first, rs.find? (·.name = q) = some first → first.meaning.isRecord = false →
    ∀ later, (ofRegistrations (rs ++ later)).get? q = some first.meaning
  /-- A record that came first stays a record. It is known by its last definition, or by that
  first declaration of it. -/
  record : ∀ first d, rs.find? (·.name = q) = some first → first.meaning = .record d →
    ∀ later, (ofRegistrations (rs ++ later)).get? q =
      some (.record ((lastDefinition? q (rs ++ later)).getD d))
  /-- Registrations of other names make no difference, wherever they come in between. -/
  others : ∀ rs', rs'.filter (·.name = q) = rs.filter (·.name = q) →
    (ofRegistrations rs').get? q = (ofRegistrations rs).get? q

theorem get?_of_first (h : rs.find? (·.name = q) = some first) (later : List Registration) :
    (ofRegistrations (rs ++ later)).get? q =
      some (first.meaning.defined (lastDefinition? q (rs ++ later))) := by
  rw [get?_ofRegistrations, List.find?_append, h, Option.some_or, Option.map_some]

theorem settled (q : String) (rs : List Registration) : Settled q rs where
  unknown_iff := by
    rw [get?_ofRegistrations, Option.map_eq_none_iff, List.find?_eq_none]
    simp only [decide_eq_true_eq, ne_eq]
  kept first hfirst hm later := by
    rw [get?_of_first hfirst, NameMeaning.defined_of_not_record hm]
  record first d hfirst hm later := by
    rw [get?_of_first hfirst, hm]
    rfl
  others rs' h := by
    rw [← get?_filter rs', h, get?_filter]

/-- A name that a record has before any enum or alias is settled by a record. -/
theorem exists_first_record (h : rs = earlier ++ r :: later) (hr : r.name = q)
    (hrecord : r.meaning.isRecord = true)
    (hearlier : ∀ r' ∈ earlier, r'.name = q → r'.meaning.isRecord = true) :
    ∃ first, rs.find? (·.name = q) = some first ∧ first.meaning.isRecord = true := by
  rw [h, List.find?_append]
  cases hfind : earlier.find? (·.name = q) with
  | none => exact ⟨r, by simp [hr], hrecord⟩
  | some r' =>
      have hname : r'.name = q := by simpa using List.find?_some hfind
      exact ⟨r', rfl, hearlier r' (List.mem_of_find?_eq_some hfind) hname⟩

end NameTable

/-! ## Registrations of a walk -/

variable {input : String} {ancestors : List Declaration} {head : Head} {n root : Node}
  {facts : RecordFacts} {name : String}

/-- The registration of a record; there is none of a union. -/
def recordRegistration? (input : String) (ancestors : List Declaration) (head : Head)
    (facts : RecordFacts) (name : String) : Option Registration :=
  (Walk.recordKind? facts.tag).map fun kind =>
    let d := declare input ancestors kind head name
    if facts.isDefinition then .define d.qualifiedName d
    else .insert d.qualifiedName (.record d)

/-- The registration of an enum or alias that the compiler did not add by itself. -/
def nameRegistration? (input : String) (ancestors : List Declaration) (head : Head)
    (meaning : Declaration → NameMeaning) : Option Registration :=
  if head.isImplicit then none
  else head.name.map fun name =>
    let d := declare input ancestors .unsupported head name
    .insert d.qualifiedName (meaning d)

/-- What the node of a stop registers. -/
def Stop.registration? (input : String) (v : Stop) : Option Registration :=
  match v.node.payload with
  | .record head facts =>
    if head.isImplicit then none
    else head.name.bind (recordRegistration? input v.ancestors head facts)
  | .specialization head facts =>
    (head.name.bind (specializationName? · v.node.inner)).bind
      (recordRegistration? input v.ancestors head facts)
  | .typeAlias head (some target) =>
    nameRegistration? input v.ancestors head fun d =>
      .typeAlias d target (scopesOf v.ancestors)
  | .enumeration head => nameRegistration? input v.ancestors head .enumeration
  | _ => none

/-- The table after the registrations of some stops. -/
def Stop.registerAll (input : String) (vs : List Stop) (t : NameTable) : NameTable :=
  (vs.filterMap (Stop.registration? input)).foldl Registration.perform t

theorem registerAll_cons (v : Stop) (vs : List Stop) (t : NameTable) :
    Stop.registerAll input (v :: vs) t =
      Stop.registerAll input vs ((v.registration? input).elim t (·.perform t)) := by
  unfold Stop.registerAll
  cases h : v.registration? input <;> simp [h]

theorem registerAll_append (vs vs' : List Stop) (t : NameTable) :
    Stop.registerAll input (vs ++ vs') t =
      Stop.registerAll input vs' (Stop.registerAll input vs t) := by
  unfold Stop.registerAll
  rw [List.filterMap_append, List.foldl_append]

/-- The walk `members` fills the table with what the stops that `told` tells register. -/
def Fills (input : String) (members : List Declaration → Walk → Walk)
    (told : List Declaration → Visibility → List Stop × Visibility) : Prop :=
  ∀ ancestors w, (members ancestors w).names =
    Stop.registerAll input (told ancestors w.access).1 w.names

section Steps

variable {members : List Declaration → Walk → Walk}
  {told : List Declaration → Visibility → List Stop × Visibility} {w : Walk}

/-- A step fills the table with what its stop registers, and then those inside it. -/
def StepFills (input : String) (ancestors : List Declaration) (n : Node)
    (members : List Declaration → Walk → Walk)
    (told : List Declaration → Visibility → List Stop × Visibility) (w : Walk) : Prop :=
  (walkStep input ancestors n members w).names =
    Stop.registerAll input
      (⟨ancestors, w.access, n⟩ :: (Stop.inside input ⟨ancestors, w.access, n⟩ told).1) w.names

/-- A step at a node without others inside it that are walked. -/
theorem stepFills_of_leaf
    (hnames : (walkStep input ancestors n members w).names =
      (Stop.registration? input ⟨ancestors, w.access, n⟩).elim w.names (·.perform w.names))
    (hinside : (Stop.inside input ⟨ancestors, w.access, n⟩ told).1 = []) :
    StepFills input ancestors n members told w := by
  unfold StepFills
  rw [hinside, registerAll_cons, hnames]
  rfl

/-- A record is registered before its members are walked. -/
theorem stepFills_record (hf : Fills input members told)
    (hstep : walkStep input ancestors n members w =
      w.record input ancestors head facts name members)
    (hregistration : Stop.registration? input ⟨ancestors, w.access, n⟩ =
      recordRegistration? input ancestors head facts name)
    (hopened : opened? input ancestors n = (Walk.recordKind? facts.tag).map fun kind =>
      (declare input ancestors kind head name, Walk.initialAccess kind))
    (hinside : opened? input ancestors n = none →
      (Stop.inside input ⟨ancestors, w.access, n⟩ told).1 = []) :
    StepFills input ancestors n members told w := by
  unfold recordRegistration? at hregistration
  cases hk : Walk.recordKind? facts.tag with
  | none =>
      rw [hk] at hregistration hopened
      refine stepFills_of_leaf ?_ (hinside hopened)
      rw [hstep, hregistration]
      unfold Walk.record
      rw [hk]
      rfl
  | some kind =>
      rw [hk] at hregistration hopened
      unfold StepFills Stop.inside
      rw [registerAll_cons, hregistration, hstep]
      dsimp only
      rw [hopened]
      unfold Walk.record
      rw [hk]
      dsimp only [Walk.within]
      rw [hf, names_bases, (Walk.Apart.bases ..).access]
      dsimp only [Option.map_some, Option.elim_some]
      rw [names_push]
      unfold Walk.name
      dsimp only
      split <;> rfl

theorem stepFills_namespace (hf : Fills input members told) (head : Head) (nodes : List Node) :
    StepFills input ancestors (.mk (.namespaceDecl head) nodes) members told w := by
  unfold StepFills
  rw [registerAll_cons]
  show (w.enterNamespace input ancestors head members).names = _
  unfold Walk.enterNamespace
  dsimp only [Walk.within]
  rw [hf]
  dsimp only
  rw [names_push]
  rfl

/-- A step registers what its stop does, and then what the nodes inside do. -/
theorem stepFills (hf : Fills input members told) (n : Node) (w : Walk) :
    StepFills input ancestors n members told w := by
  obtain ⟨payload, nodes⟩ := n
  cases payload with
  | namespaceDecl head => exact stepFills_namespace hf head nodes
  | record head facts =>
      cases hn : head.name with
      | none =>
          refine stepFills_of_leaf ?_ ?_
          · simp [walkStep, Stop.registration?, hn]
          · simp [Stop.inside, opened?, hn]
      | some name =>
          cases hi : head.isImplicit with
          | true =>
              refine stepFills_of_leaf ?_ ?_
              · simp [walkStep, Stop.registration?, hn, hi]
              · simp [Stop.inside, opened?, hi]
          | false =>
              have hstep : walkStep input ancestors (.mk (.record head facts) nodes) members w =
                  w.record input ancestors head facts name members := by
                simp [walkStep, hn, hi]
              refine stepFills_record hf hstep ?_ ?_ fun hnone => ?_
              · simp [Stop.registration?, hn, hi]
              · simp [opened?, hn, hi]
              · simp [Stop.inside, hnone]
  | specialization head facts =>
      cases hn : head.name.bind (specializationName? · nodes) with
      | none =>
          refine stepFills_of_leaf ?_ ?_
          · simp [walkStep, Stop.registration?, hn]
          · simp [Stop.inside, opened?, hn]
      | some name =>
          have hstep : walkStep input ancestors (.mk (.specialization head facts) nodes) members
              w = w.record input ancestors head facts name members := by
            simp [walkStep, hn]
          refine stepFills_record hf hstep ?_ ?_ fun hnone => ?_
          · simp [Stop.registration?, hn]
          · simp [opened?, hn]
          · simp [Stop.inside, hnone]
  | field head type => exact stepFills_of_leaf (names_value ..) rfl
  | function role head facts => exact stepFills_of_leaf (names_function ..) rfl
  | typeAlias head target =>
      refine stepFills_of_leaf ?_ rfl
      cases target with
      | none => simp [walkStep, Walk.typeAlias, Stop.registration?]
      | some target =>
          cases hn : head.name <;> cases hi : head.isImplicit <;>
            simp [walkStep, Walk.typeAlias, Stop.registration?, nameRegistration?,
              Registration.perform, Walk.name, hn, hi]
  | enumeration head =>
      refine stepFills_of_leaf ?_ rfl
      cases hn : head.name <;> cases hi : head.isImplicit <;>
        simp [walkStep, Walk.enumeration, Stop.registration?, nameRegistration?,
          Registration.perform, Walk.name, hn, hi]
  | accessSpecifier written =>
      refine stepFills_of_leaf ?_ rfl
      unfold walkStep
      dsimp only [Node.payload_mk]
      split <;> rfl
  | parameter | templateArgument => exact stepFills_of_leaf rfl rfl
  | other => exact hf ancestors w

end Steps

mutual

/-- A walk fills the table with what its stops register. -/
theorem names_walk_stops (input : String) (ancestors : List Declaration) :
    ∀ (n : Node) (w : Walk), (walk input ancestors n w).names =
      Stop.registerAll input (stops input ancestors w.access n).1 w.names
  | .mk payload nodes, w => by
      rw [walk_eq_step, stops_eq]
      exact stepFills (fun ancestors w => names_walkAll_stops input ancestors nodes w) _ w

theorem names_walkAll_stops (input : String) (ancestors : List Declaration) :
    ∀ (nodes : List Node) (w : Walk), (walkAll input ancestors nodes w).names =
      Stop.registerAll input (stopsAll input ancestors w.access nodes).1 w.names
  | [], w => by
      rw [walkAll, stopsAll]
      rfl
  | n :: rest, w => by
      -- The other nodes are walked with the access that the first one leaves in force.
      have haccess := (entries_walk input ancestors n w).2
      have hrest := names_walkAll_stops input ancestors rest (walk input ancestors n w)
      rw [haccess, names_walk_stops input ancestors n w] at hrest
      rw [walkAll, stopsAll, hrest, registerAll_append]

end

/-- The registrations of a syntax tree, in the order of the walk. -/
def registrations (input : String) (root : Node) : List Registration :=
  (Stop.ofTree input root).filterMap (Stop.registration? input)

/-- The table of a syntax tree is filled by the registrations of its stops. -/
theorem names_ofTree (input : String) (root : Node) :
    (Source.ofTree input root).names = NameTable.ofRegistrations (registrations input root) :=
  names_walk_stops input [] root {}

theorem registrations_of_stops {earlier later : List Stop} {v : Stop} {r : Registration}
    (h : Stop.ofTree input root = earlier ++ v :: later) (hr : v.registration? input = some r) :
    registrations input root = earlier.filterMap (Stop.registration? input) ++
      r :: later.filterMap (Stop.registration? input) := by
  unfold registrations
  rw [h, List.filterMap_append, List.filterMap_cons_some hr]

/-- In the walk of the tree, `d` is the last definition of the record `q`, and no enum or alias
took the name before a record did. -/
structure LastDefined (input : String) (root : Node) (q : String) (d : Declaration) : Prop where
  untaken : ∃ earlier v later r, Stop.ofTree input root = earlier ++ v :: later ∧
    v.registration? input = some r ∧ r.name = q ∧ r.meaning.isRecord = true ∧
    ∀ u ∈ earlier, ∀ r' ∈ u.registration? input, r'.name = q → r'.meaning.isRecord = true
  last : ∃ earlier v later, Stop.ofTree input root = earlier ++ v :: later ∧
    v.registration? input = some (.define q d) ∧
    ∀ u ∈ later, ∀ r ∈ u.registration? input, r.definition? q = none

theorem LastDefined.get? {q : String} {d : Declaration} (h : LastDefined input root q d) :
    (Source.ofTree input root).names.get? q = some (.record d) := by
  obtain ⟨earlier, v, later, r, hstops, hr, hname, hrecord, hearlier⟩ := h.untaken
  obtain ⟨first, hfirst, hm⟩ := NameTable.exists_first_record
    (registrations_of_stops hstops hr) hname hrecord (List.forall_mem_filterMap.2 hearlier)
  obtain ⟨d₀, hmeaning⟩ := NameMeaning.exists_of_isRecord hm
  obtain ⟨before, w, after, hstops, hw, hafter⟩ := h.last
  have hlast : NameTable.lastDefinition? q (registrations input root) = some d :=
    NameTable.lastDefinition?_of_later (registrations_of_stops hstops hw)
      (List.forall_mem_filterMap.2 hafter)
  rw [names_ofTree, NameTable.get?_ofRegistrations, hfirst, Option.map_some, hmeaning, hlast]
  rfl

/-! ## Every name -/

/-- A name means one thing for good, in every table that is filled from an empty one. The
table of a tree is filled so; hence a record is looked up as its last definition there, however
often it is declared again before or after. -/
theorem names_settled (q : String) :
    (∀ rs : List Registration, NameTable.Settled q rs) ∧
    ∀ (input : String) (root : Node),
      (Source.ofTree input root).names =
        NameTable.ofRegistrations (registrations input root) ∧
      ∀ d, LastDefined input root q d →
        (Source.ofTree input root).names.get? q = some (.record d) :=
  ⟨NameTable.settled q, fun input root => ⟨names_ofTree input root, fun _ h => h.get?⟩⟩

/-- A struct that is declared or defined in a line. -/
def Node.structAt (name : String) (line : Nat) (isDefinition : Bool) : Node :=
  .mk (.record { name := some name, location := some ⟨"", line, 8⟩ } { isDefinition }) []

/-- A struct that is declared and defined more than once, with other uses of its name in
between, and an alias whose name is used for a struct later. -/
def Node.widgets : Node :=
  .mk .other [
    structAt "Widget" 1 false,
    .mk (.typeAlias { name := some "Widget" } (some "struct Widget")) [],
    structAt "Widget" 3 true, structAt "Widget" 4 false, structAt "Widget" 5 true,
    .mk (.enumeration { name := some "Widget" }) [], structAt "Widget" 7 false,
    .mk (.typeAlias { name := some "Id" } (some "int")) [], structAt "Id" 9 true]

theorem names_settled_widgets :
    let widget : Declaration := ⟨⟨"w.hpp", 5, 8⟩, "Widget", "Widget", .structDecl⟩
    let id : Registration :=
      .insert "Id" (.typeAlias ⟨⟨"w.hpp", 0, 0⟩, "Id", "Id", .unsupported⟩ "int" [])
    LastDefined "w.hpp" Node.widgets "Widget" widget ∧
      (Source.ofTree "w.hpp" Node.widgets).names.get? "Widget" = some (.record widget) ∧
      (registrations "w.hpp" Node.widgets).find? (·.name = "Id") = some id ∧
      id.meaning.isRecord = false ∧
      (Source.ofTree "w.hpp" Node.widgets).names.get? "Id" = some id.meaning := by
  intro widget id
  have hlast : LastDefined "w.hpp" Node.widgets "Widget" widget := by
    constructor
    · refine ⟨[⟨[], .invalid, .widgets⟩], ⟨[], .invalid, .structAt "Widget" 1 false⟩, _, _,
        rfl, rfl, rfl, rfl, ?_⟩
      decide
    · refine ⟨(Stop.ofTree "w.hpp" .widgets).take 5,
        ⟨[], .invalid, .structAt "Widget" 5 true⟩,
        (Stop.ofTree "w.hpp" .widgets).drop 6, rfl, rfl, ?_⟩
      decide
  have hid : (registrations "w.hpp" Node.widgets).find? (·.name = "Id") = some id := rfl
  have hkept := ((names_settled "Id").1 (registrations "w.hpp" Node.widgets)).kept id hid rfl []
  refine ⟨hlast, ((names_settled "Widget").2 "w.hpp" Node.widgets).2 widget hlast, hid, rfl, ?_⟩
  rwa [names_ofTree, ← List.append_nil (registrations "w.hpp" Node.widgets)]

end DeclAtlas.Dump
