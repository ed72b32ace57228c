import DeclAtlas.Proofs.Survey.Members
import Mathlib.Data.List.Induction

/-!
# Paths and visibilities

What a structure says of its own place, its path and its visibility, is written when a struct
or class of its name is visited. The latest visit stays, except that a visit which does not
know the visibility leaves it. All that comes in between, be it members that are added or types
that are entered, leaves both as they are.

A path names the structures around by their handles. They are looked up when the path is read
and never entered, so whether a handle is null depends on all that was entered by then. Hence a
run is told visit by visit here, each with the atlas before and after it.

## Main results

* `Visits.membersOf_own`, `Traces.membersOf_own`: what a visit and a run make of the place of
  a structure.
* `Traces.exists_visits`: the visits of a run.
* `build_lastVisits`: the path and the visibility of every structure that is built.
-/

universe u v

namespace DeclAtlas.Survey

open DeclarationSource

variable {σ : Type u} [DeclarationSource σ] {o : SurveyOptions} {src src' : σ}
  {d : Declaration} {a a' b : Atlas} {uses : List Use} {q : String} {β : Type v}
  {g : Structure → List β}

/-! ## The visits of a run -/

/-- A visit: what was read, and the atlas before and after it. -/
structure Moment where
  item : Item
  before : Atlas
  after : Atlas

/-- `Traces o src a ms a' src'`: visiting what is left in `src` leads from `a` to `a'` by the
visits `ms`, one after another, and to the end of the source `src'`. -/
inductive Traces (o : SurveyOptions) : σ → Atlas → List Moment → Atlas → σ → Prop where
  | done {src : σ} {a : Atlas} (hend : (next src).1.isEmpty = true) :
      Traces o src a [] a (next src).2
  | step {src src' : σ} {a b a' : Atlas} {uses : List Use} {ms : List Moment}
      (hread : (next src).1.isEmpty = false)
      (hv : Visits o (next src).2 (next src).1 a uses b)
      (ht : Traces o (next src).2 b ms a' src') :
      Traces o src a (⟨itemOf (next src).2 (next src).1, a, b⟩ :: ms) a' src'

namespace Moment

/-- Is it a visit of a struct or class called `q`? -/
def isOf (q : String) (m : Moment) : Bool :=
  m.item.declaration.kind.isStructure && m.item.declaration.qualifiedName = q

/-- The scopes around what is visited, as they are found before the visit. -/
def path (m : Moment) : List PathNode := m.item.ancestors.map (pathNode m.before)

/-- What the visit makes of the structure that is declared. -/
def refined (m : Moment) (s : Structure) : Structure :=
  { s.applyDeclaration m.item.declaration with
    path := m.path
    visibility := if m.item.visibility = .invalid then s.visibility else m.item.visibility }

end Moment

/-- The visits of `q`, in their order. -/
def visitsOf (q : String) (ms : List Moment) : List Moment := ms.filter (·.isOf q)

/-- The visibilities that are known in the visits of `q`, in their order. -/
def visibilitiesOf (q : String) (ms : List Moment) : List Visibility :=
  ((visitsOf q ms).map (·.item.visibility)).filter (· ≠ .invalid)

/-- A scope of a path that was read in `before`, with the handle of its own entry in `a` if it
is a structure that was known then. -/
def nodeFor (before a : Atlas) (d : Declaration) : PathNode where
  identifier := d.identifier
  structureHandle :=
    if d.kind.isStructure = true ∧ d.qualifiedName ∈ before.structures.keys then
      a.findStructure d.qualifiedName
    else .null
  kind := .ofDeclaration d.kind

/-- After the visits `ms` the structures of an atlas say of themselves what the last visits
said. -/
structure LastVisits (ms : List Moment) (a : Atlas) : Prop where
  /-- What was visited has a structure of its name. -/
  visited : ∀ m ∈ ms, ∀ q, m.isOf q = true →
    ∃ s, a.structure? (a.findStructure q) = some s ∧ s.qualifiedName = q
  path : ∀ h s m, a.structure? h = some s → (visitsOf s.qualifiedName ms).getLast? = some m →
    s.path = m.item.ancestors.map (nodeFor m.before a)
  visibility : ∀ h s, a.structure? h = some s →
    s.visibility = (visibilitiesOf s.qualifiedName ms).getLast?.getD .invalid
  /-- What was known before a visit has an entry of its own. -/
  known : ∀ m ∈ ms, ∀ n ∈ m.before.structures.keys,
    ∃ s, a.structure? (a.findStructure n) = some s ∧ s.qualifiedName = n
  /-- A visit enters the visited structure at most, and none of those around it. -/
  entered : ∀ m ∈ ms, ∀ q, m.isOf q = true → ∀ n ∈ m.after.structures.keys,
    n ∈ m.before.structures.keys ∨ n = q

theorem Moment.isOf_iff {m : Moment} : m.isOf q = true ↔
    m.item.declaration.kind.isStructure = true ∧ m.item.declaration.qualifiedName = q := by
  unfold isOf
  rw [Bool.and_eq_true, decide_eq_true_eq]

theorem Runs.traces (hr : Runs o src a uses a' src') : ∃ ms, Traces o src a ms a' src' := by
  induction hr with
  | done hend => exact ⟨[], .done hend⟩
  | step hread hv _ ih =>
      obtain ⟨ms, ht⟩ := ih
      exact ⟨_, .step hread hv ht⟩

theorem Traces.delivers {ms : List Moment} (ht : Traces o src a ms a' src') :
    Delivers src (ms.map (·.item)) := by
  induction ht with
  | done hend => exact .done hend
  | step hread _ _ ih => exact .step hread rfl ih

theorem Traces.grows {ms : List Moment} (ht : Traces o src a ms a' src') : a.Grows a' := by
  induction ht with
  | done hend => exact .refl _
  | step _ hv _ ih => exact hv.grows.trans ih

/-- The moments of a run are visits, and what they lead to is not lost. -/
theorem Traces.exists_visits {ms : List Moment} (ht : Traces o src a ms a' src') {m : Moment}
    (hm : m ∈ ms) : ∃ (src : σ) (uses : List Use),
      itemOf src m.item.declaration = m.item ∧
      Visits o src m.item.declaration m.before uses m.after ∧ m.after.Grows a' := by
  induction ht with
  | done hend => exact nomatch hm
  | step hread hv ht ih =>
      rcases List.mem_cons.1 hm with rfl | hm
      · exact ⟨_, _, rfl, hv, ht.grows⟩
      · exact ih hm

/-! ## What a structure says of its place -/

/-- A part of what a structure says of its own place. -/
structure IsOwn (g : Structure → List β) : Prop where
  blank : ∀ n, g { qualifiedName := n } = []
  place : ∀ {s t : Structure}, s.path = t.path → s.visibility = t.visibility → g s = g t

/-- The visibility of a structure, if it is known. -/
def knownVisibility (s : Structure) : List Visibility := [s.visibility].filter (· ≠ .invalid)

theorem isOwn_path : IsOwn (fun s => s.path) where
  blank _ := rfl
  place hp _ := hp

theorem isOwn_knownVisibility : IsOwn knownVisibility where
  blank _ := rfl
  place _ hv := by
    unfold knownVisibility
    rw [hv]

/-- A change of a structure that leaves its own place alone. -/
def KeepsPlace (f : Structure → Structure) : Prop :=
  ∀ s, (f s).path = s.path ∧ (f s).visibility = s.visibility

theorem IsOwn.kept (hg : IsOwn g) {f : Structure → Structure} (hf : KeepsPlace f)
    (s : Structure) : g (f s) = g s :=
  hg.place (hf s).1 (hf s).2

theorem keepsPlace_applyDeclaration (d : Declaration) :
    KeepsPlace (·.applyDeclaration d) := fun _ => ⟨rfl, rfl⟩

theorem keepsPlace_addParent (h : StructureHandle) : KeepsPlace (addParent h) :=
  fun _ => ⟨rfl, rfl⟩

theorem keepsPlace_addField (f : Field) : KeepsPlace (addField f) := fun _ => ⟨rfl, rfl⟩

theorem keepsPlace_addMethod (m : Method) : KeepsPlace (addMethod m) := fun _ => ⟨rfl, rfl⟩

theorem keepsPlace_addParameter (name : String) (p : MethodParameter) :
    KeepsPlace (addParameter name p) := fun _ => ⟨rfl, rfl⟩

theorem membersOf_modifyEnclosing_of_own (src : σ) (hg : IsOwn g) {f : Structure → Structure}
    (hf : KeepsPlace f) (a : Atlas) (q : String) :
    (modifyEnclosing src f a).membersOf g q = a.membersOf g q := by
  rw [membersOf_modifyEnclosing_eq src hg.blank (F := id) (hg.kept hf)]
  exact ite_self _

theorem Enters.membersOf_own {t : DeclaredType} {calls : List Call} {h : TypeHandle}
    (he : Enters o src t a calls h b) (hg : IsOwn g) (q : String) :
    b.membersOf g q = a.membersOf g q :=
  he.membersOf q hg.blank fun s d => hg.kept (keepsPlace_applyDeclaration d) s

/-- A visit of anything but a struct or class leaves all places alone. -/
theorem Visits.membersOf_own_of_other (hv : Visits o src d a uses b) (hg : IsOwn g)
    (hk : d.kind.isStructure = false) (q : String) :
    b.membersOf g q = a.membersOf g q := by
  cases hv with
  | idle _ => rfl
  | record hrecord => exact absurd (hrecord.symm.trans hk) (by decide)
  | base _ =>
      rw [visitBase_eq, membersOf_modifyEnclosing_of_own src hg (keepsPlace_addParent _),
        Atlas.membersOf_enterStructure (hg.blank _)]
  | field _ he =>
      rw [membersOf_modifyEnclosing_of_own src hg (keepsPlace_addField _), he.membersOf_own hg]
  | method _ _ he =>
      rw [membersOf_modifyEnclosing_of_own src hg (keepsPlace_addMethod _), he.membersOf_own hg]
  | parameter _ _ he =>
      rw [Atlas.membersOf_modifyStructure_of_same _ (hg.kept (keepsPlace_addParameter _ _)),
        he.membersOf_own hg]

/-- A struct or class that is visited is refined. -/
theorem Visits.eq_refine (hv : Visits o src d a uses b) (hk : d.kind.isStructure = true) :
    b = a.refine d.qualifiedName (Moment.refined ⟨itemOf src d, a, b⟩) := by
  cases hv with
  | record _ => rfl
  | idle hi =>
      unfold IsIdle at hi
      rcases eq_of_isStructure hk with hd | hd <;> rw [hd] at hi <;> exact hi.elim
  | base hk' | field hk' _ | method hk' _ _ | parameter hk' _ _ =>
      rw [hk'] at hk
      exact nomatch hk

/-- A visit of a struct or class writes the place of its structure; no other visit does. -/
theorem Visits.membersOf_own (hv : Visits o src d a uses b) (hg : IsOwn g)
    {F : List β → List β}
    (hF : ∀ s, g (Moment.refined ⟨itemOf src d, a, b⟩ s) = F (g s)) (q : String) :
    b.membersOf g q =
      if Moment.isOf q ⟨itemOf src d, a, b⟩ = true then F (a.membersOf g q)
      else a.membersOf g q := by
  cases hk : d.kind.isStructure with
  | true =>
      have hwritten := Atlas.membersOf_refine_eq (a := a) (m := q) (hg.blank d.qualifiedName) hF
      rw [← hv.eq_refine hk] at hwritten
      rw [hwritten]
      by_cases hq : q = d.qualifiedName
      · rw [if_pos hq, if_pos (Moment.isOf_iff.2 ⟨hk, hq.symm⟩)]
      · rw [if_neg hq, if_neg fun hof => hq (Moment.isOf_iff.1 hof).2.symm]
  | false =>
      rw [hv.membersOf_own_of_other hg hk, if_neg]
      intro hof
      exact absurd ((Moment.isOf_iff.1 hof).1.symm.trans hk) (by decide)

/-- A run writes the place of a structure at each visit of it. -/
theorem Traces.membersOf_own {ms : List Moment} (ht : Traces o src a ms a' src')
    (hg : IsOwn g) {F : Moment → List β → List β} (hF : ∀ m s, g (m.refined s) = F m (g s)) :
    a'.membersOf g q =
      (visitsOf q ms).foldl (fun xs m => F m xs) (a.membersOf g q) := by
  induction ht with
  | done hend => rfl
  | @step src src' a b a' uses ms hread hv ht ih =>
      rw [ih, hv.membersOf_own hg (hF _)]
      unfold visitsOf
      rw [List.filter_cons]
      split
      · rw [List.foldl_cons]
      · rfl

/-! ## The last visits -/

theorem knownVisibility_refined (m : Moment) (s : Structure) :
    knownVisibility (m.refined s) =
      if m.item.visibility = .invalid then knownVisibility s else [m.item.visibility] := by
  unfold knownVisibility Moment.refined
  by_cases hv : m.item.visibility = .invalid
  · rw [if_pos hv, if_pos hv]
  · simp [hv]

/-- Among visibilities the last one that is known stays. -/
theorem foldl_visibility (ms : List Moment) :
    ms.foldl (fun vs m => if m.item.visibility = .invalid then vs else [m.item.visibility]) [] =
      ((ms.map (·.item.visibility)).filter (· ≠ .invalid)).getLast?.toList := by
  induction ms using List.reverseRecOn with
  | nil => rfl
  | append_singleton ms m ih =>
      rw [List.foldl_concat, ih, List.map_append, List.filter_append]
      by_cases hv : m.item.visibility = .invalid
      · simp [hv]
      · simp [hv]

/-- A scope that was looked up before a visit is the one found in the end. -/
theorem pathNode_eq (hg : a.Grows a') (d : Declaration) : pathNode a d = nodeFor a a' d := by
  unfold pathNode nodeFor
  by_cases hmem : d.qualifiedName ∈ a.structures.keys
  · rw [hg.findStructure hmem]
    simp only [hmem, and_true]
  · have hnull : a.findStructure d.qualifiedName = .null := by
      unfold Atlas.findStructure
      rw [Registry.find_eq, if_neg hmem]
    rw [hnull]
    simp only [hmem, and_false, if_false, ite_self]

/-- A visit of a struct or class enters its own structure at most. -/
theorem Visits.keys_of_record (hv : Visits o src d a uses b) (hk : d.kind.isStructure = true) :
    b.structures.keys =
      if d.qualifiedName ∈ a.structures.keys then a.structures.keys
      else a.structures.keys ++ [d.qualifiedName] := by
  rw [hv.eq_refine hk, Atlas.structures_refine, Registry.keys_modify, Registry.keys_enter]

theorem Traces.lastVisits {ms : List Moment} {id : ArenaId}
    (ht : Traces o src (Atlas.empty id) ms a src') (hi : ReferenceIntegrity a) :
    LastVisits ms a := by
  have hempty : ∀ {γ : Type} (g : Structure → List γ) (q : String),
      (Atlas.empty id).membersOf g q = [] := fun g q =>
    Atlas.membersOf_of_not_mem List.not_mem_nil
  have hfound : ∀ {γ : Type} (g : Structure → List γ) {h : StructureHandle} {s : Structure},
      a.structure? h = some s → a.membersOf g s.qualifiedName = g s := by
    intro γ g h s hs
    unfold Atlas.membersOf
    rw [hi.findStructure h s hs, hs]
    rfl
  have named : ∀ n ∈ a.structures.keys,
      ∃ s, a.structure? (a.findStructure n) = some s ∧ s.qualifiedName = n := by
    intro n hn
    obtain ⟨s, hs⟩ := Option.isSome_iff_exists.1 (Atlas.hasStructure_findStructure hn)
    exact ⟨s, hs, hi.structureOfName n s hs⟩
  constructor
  case visited =>
    intro m hm q hof
    obtain ⟨hk, rfl⟩ := Moment.isOf_iff.1 hof
    obtain ⟨_, _, -, hv, hg⟩ := ht.exists_visits hm
    apply named
    apply hg.structures.mem
    rw [hv.keys_of_record hk]
    by_cases hmem : m.item.declaration.qualifiedName ∈ m.before.structures.keys
    · rwa [if_pos hmem]
    · rw [if_neg hmem]
      exact List.mem_append_right _ (List.mem_singleton_self _)
  case path =>
    intro h s m hs hlast
    have hm : m ∈ ms := (List.mem_filter.1 (List.mem_of_getLast? hlast)).1
    obtain ⟨_, _, -, hv, hg⟩ := ht.exists_visits hm
    obtain ⟨earlier, hsplit⟩ := List.getLast?_eq_some_iff.1 hlast
    have hpath : s.path = m.path := by
      rw [← hfound (fun s => s.path) hs,
        ht.membersOf_own isOwn_path (F := fun m _ => m.path) fun _ _ => rfl, hsplit,
        List.foldl_concat]
    rw [hpath]
    exact List.map_congr_left fun d _ => pathNode_eq (hv.grows.trans hg) d
  case visibility =>
    intro h s hs
    have hknown : knownVisibility s =
        (visibilitiesOf s.qualifiedName ms).getLast?.toList := by
      rw [← hfound knownVisibility hs,
        ht.membersOf_own isOwn_knownVisibility (F := fun m vs =>
          if m.item.visibility = .invalid then vs else [m.item.visibility])
          knownVisibility_refined, hempty]
      exact foldl_visibility _
    unfold knownVisibility at hknown
    cases hlast : (visibilitiesOf s.qualifiedName ms).getLast? with
    | none =>
        rw [hlast] at hknown
        simpa using hknown
    | some v =>
        rw [hlast] at hknown
        have hmem : v ∈ [s.visibility].filter (· ≠ .invalid) := by
          rw [hknown]
          exact List.mem_singleton_self v
        exact (List.mem_singleton.1 (List.mem_filter.1 hmem).1).symm
  case known =>
    intro m hm n hn
    obtain ⟨_, _, -, hv, hg⟩ := ht.exists_visits hm
    exact named n ((hv.grows.trans hg).structures.mem hn)
  case entered =>
    intro m hm q hof n hn
    obtain ⟨hk, rfl⟩ := Moment.isOf_iff.1 hof
    obtain ⟨_, _, -, hv, -⟩ := ht.exists_visits hm
    rw [hv.keys_of_record hk] at hn
    split at hn
    · exact Or.inl hn
    · exact (List.mem_append.1 hn).imp_right List.mem_singleton.1

theorem exists_lastVisits {fuel : Nat} {id : ArenaId}
    (hb : build (.standard o) fuel src id = some (a, src')) :
    ∃ ms, Traces o src (Atlas.empty id) ms a src' ∧ LastVisits ms a := by
  obtain ⟨uses, hr⟩ := runs_of_build hb
  obtain ⟨ms, ht⟩ := hr.traces
  exact ⟨ms, ht, ht.lastVisits hr.integrity⟩

/-- In an atlas built from a recorded script or from a dump the path and the visibility of
every structure are those of its last visits, where the visits are what the source has to be
read. The type and visibility of what is read are its own as long as a script has lines enough
for its declarations. -/
theorem build_lastVisits (o : SurveyOptions) (fuel : Nat) (id : ArenaId) (a : Atlas) :
    (∀ s s' : Script, s.Recorded → build (.standard o) fuel s id = some (a, s') →
      ∃ ms, Traces o s (Atlas.empty id) ms a s' ∧ LastVisits ms a ∧
        ms.map (fun m => (m.item.declaration, m.item.ancestors)) =
          s.upcoming.map (fun i => (i.declaration, i.ancestors)) ∧
        (s.entries.length ≤ Script.maxLine → ms.map (·.item) = s.upcoming)) ∧
    (∀ s s' : Dump.Source, build (.standard o) fuel s id = some (a, s') →
      ∃ ms, Traces o s (Atlas.empty id) ms a s' ∧ LastVisits ms a ∧
        ms.map (·.item) = s.reached.map (·.item s.names)) := by
  constructor
  · intro s s' hs hb
    obtain ⟨ms, ht, hlast⟩ := exists_lastVisits hb
    have hancestors := hs.ancestors_of_delivers ht.delivers
    rw [List.map_map] at hancestors
    exact ⟨ms, ht, hlast, hancestors, fun hl => ht.delivers.unique (hs.delivers hl)⟩
  · intro s s' hb
    obtain ⟨ms, ht, hlast⟩ := exists_lastVisits hb
    exact ⟨ms, ht, hlast, ht.delivers.unique (Dump.Source.delivers_reached s)⟩

/-- A struct that is declared inside another one and then again in a namespace, where its
visibility is not known. -/
def redeclared : Script :=
  let outer := ((default : Script).nest .structDecl "Outer").leaf .structDecl "Inner"
  (((outer.withVisibility .privateAccess).close.nest .namespaceDecl "ns").leaf .structDecl
    "Inner").close

theorem recorded_redeclared : redeclared.Recorded :=
  ((((((Script.Recorded.new.nest _ _).leaf _ _).withVisibility _).close).nest _ _).leaf _ _).close

theorem build_lastVisits_redeclared :
    (∃ a s' ms, build (.standard {}) 9 redeclared ⟨1⟩ = some (a, s') ∧
      a.structures.values.map (fun s => (s.path.map (·.identifier), s.visibility)) =
        [([], .invalid), (["ns"], .privateAccess)] ∧
      LastVisits ms a ∧ ms.map (·.item) = redeclared.upcoming) ∧
    (∃ a s' ms, build (.standard {}) 9 Dump.Source.linked ⟨1⟩ = some (a, s') ∧
      LastVisits ms a ∧
      ms.map (·.item) = Dump.Source.linked.reached.map (·.item Dump.Source.linked.names)) := by
  constructor
  · have hb : build (.standard {}) 9 redeclared ⟨1⟩ = some (_, _) := rfl
    obtain ⟨ms, -, hlast, -, hitems⟩ :=
      (build_lastVisits {} 9 ⟨1⟩ _).1 _ _ recorded_redeclared hb
    exact ⟨_, _, ms, hb, rfl, hlast, hitems (by decide)⟩
  · have hbuilt : (build (.standard {}) 9 Dump.Source.linked ⟨1⟩).isSome = true := by
      decide +kernel
    obtain ⟨⟨a, s'⟩, hb⟩ := Option.isSome_iff_exists.1 hbuilt
    obtain ⟨ms, -, hlast, hitems⟩ := (build_lastVisits {} 9 ⟨1⟩ a).2 _ s' hb
    exact ⟨a, s', ms, hb, hlast, hitems⟩

end DeclAtlas.Survey
