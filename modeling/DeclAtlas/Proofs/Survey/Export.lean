import DeclAtlas.Proofs.Decoding
import DeclAtlas.Proofs.Survey.Closure

/-!
# Exported atlases

What is exported of built atlases can be read back: the text is JSON, and from its value come
the structures and types with all their members, and every handle as null or as the position,
in the lists of the same snapshot, of what it names. So the export of an atlas tells
everything about it but the identifier of its arenas, and exports are the same just for
snapshots that differ in nothing else.

Decoding gives back a snapshot in the arenas that the reader names. That this is the snapshot
that was written, and that positions lead where handles did, is where it counts that the
atlas was built: all its handles are its own.

## Main results

* `Snapshot.relocate_eq_self`: a snapshot whose handles stay is the same after relocation.
* `Built.relocate_snapshot`, `Built.recovers`: an atlas is recovered from its export.
* `Built.byPosition_eq_iff`: snapshots that are the same by positions differ in their arenas
  at most.
* `export_faithful`: all of this, for any number of built atlases in one text.
-/

universe u v

namespace DeclAtlas

open Json

/-! ## Handles that stay where they are -/

section Stays

variable {f : ArenaId → ArenaId}

theorem map_eq_self {α : Type u} {g : α → α} {xs : List α} (h : ∀ x ∈ xs, g x = x) :
    xs.map g = xs :=
  (List.map_congr_left h).trans (List.map_id xs)

theorem TypeEntry.relocate_eq_self {e : TypeEntry}
    (ht : ∀ h ∈ e.typeHandles, h.relocate f = h)
    (hs : ∀ h ∈ e.structureHandles, h.relocate f = h) : e.relocate f = e := by
  have hbase : e.base.relocate f = e.base := ht _ (List.mem_cons_self ..)
  have hrecord : e.baseStructure.relocate f = e.baseStructure := hs _ (List.mem_cons_self ..)
  have harguments : e.templateArguments.map (·.relocate f) = e.templateArguments := by
    refine map_eq_self fun x hx => ?_
    have htype := ht _ (List.mem_cons_of_mem _ (List.mem_map_of_mem hx))
    simp [TemplateArgument.relocate, TemplateParameter.relocate, htype]
  simp [relocate, hbase, hrecord, harguments]

theorem Method.relocate_eq_self {m : Method} (ht : ∀ h ∈ m.typeHandles, h.relocate f = h) :
    m.relocate f = m := by
  have hreturn : m.returnType.relocate f = m.returnType := ht _ (List.mem_cons_self ..)
  have hparameters : m.parameters.map (·.relocate f) = m.parameters := by
    refine map_eq_self fun p hp => ?_
    have htype := ht _ (List.mem_cons_of_mem _ (List.mem_map_of_mem hp))
    simp [MethodParameter.relocate, htype]
  simp [relocate, hreturn, hparameters]

theorem Structure.relocate_eq_self {s : Structure}
    (ht : ∀ h ∈ s.typeHandles, h.relocate f = h)
    (hs : ∀ h ∈ s.structureHandles, h.relocate f = h) : s.relocate f = s := by
  simp only [typeHandles, structureHandles, List.forall_mem_append, List.forall_mem_map,
    List.forall_mem_flatMap] at ht hs
  obtain ⟨⟨hparameters, hfields⟩, hmethods⟩ := ht
  obtain ⟨hparents, hpath⟩ := hs
  have hparameters : s.templateParameters.map (·.relocate f) = s.templateParameters :=
    map_eq_self fun p hp => by simp [TemplateParameter.relocate, hparameters p hp]
  have hfields : s.fields.map (·.relocate f) = s.fields :=
    map_eq_self fun x hx => by simp [Field.relocate, hfields x hx]
  have hmethods : s.methods.map (·.relocate f) = s.methods :=
    map_eq_self fun m hm => Method.relocate_eq_self (hmethods m hm)
  have hpath : s.path.map (·.relocate f) = s.path :=
    map_eq_self fun n hn => by simp [PathNode.relocate, hpath n hn]
  simp [relocate, hparameters, hfields, hmethods, map_eq_self hparents, hpath]

end Stays

namespace Snapshot

/-- The handles of types in a snapshot. -/
def typeHandles (s : Snapshot) : List TypeHandle :=
  s.structures.flatMap (·.typeHandles) ++ s.types.flatMap (·.typeHandles)

/-- The handles of structures in a snapshot. -/
def structureHandles (s : Snapshot) : List StructureHandle :=
  s.structures.flatMap (·.structureHandles) ++ s.types.flatMap (·.structureHandles)

theorem relocate_eq_self {f : ArenaId → ArenaId} {s : Snapshot}
    (ht : ∀ h ∈ s.typeHandles, h.relocate f = h)
    (hs : ∀ h ∈ s.structureHandles, h.relocate f = h) : s.relocate f = s := by
  simp only [typeHandles, structureHandles, List.forall_mem_append, List.forall_mem_flatMap]
    at ht hs
  have hstructures : s.structures.map (·.relocate f) = s.structures :=
    map_eq_self fun x hx => Structure.relocate_eq_self (ht.1 x hx) (hs.1 x hx)
  have htypes : s.types.map (·.relocate f) = s.types :=
    map_eq_self fun e he => TypeEntry.relocate_eq_self (ht.2 e he) (hs.2 e he)
  simp [relocate, hstructures, htypes]

theorem relocate_relocate (f g : ArenaId → ArenaId) (s : Snapshot) :
    (s.relocate f).relocate g = s.relocate (g ∘ f) := by
  simp [relocate, Function.comp_def]

/-- One snapshot is the other with the identifiers of arenas exchanged for others. -/
def SameButForArenas (s t : Snapshot) : Prop := ∃ f : Equiv.Perm ArenaId, s.relocate f = t

end Snapshot

namespace Survey

open Atlas

/-- An atlas that a survey has built, of any source and by any tables, and what it is called
when it is exported. -/
structure Built where
  name : String
  id : ArenaId
  atlas : Atlas
  built : ∃ (σ : Type u) (_ : DeclarationSource σ) (rules : SurveyRules) (fuel : Nat)
    (src src' : σ), build rules fuel src id = some (atlas, src')

/-- What comes of a survey that ends. -/
def Built.ofSurvey {σ : Type u} [DeclarationSource σ] (name : String) (rules : SurveyRules)
    (fuel : Nat) (src : σ) (id : ArenaId) (h : (build rules fuel src id).isSome = true) :
    Built.{u} where
  name := name
  id := id
  atlas := ((build rules fuel src id).get h).1
  built := ⟨σ, _, rules, fuel, src, _, (Option.some_get h).symm⟩

/-- What is exported of a built atlas. -/
def Built.snapshot (m : Built) : Snapshot := .ofAtlas m.name m.atlas

/-- A handle is shown as null if it is null, and otherwise as the position among `entries` of
the very entry that it names. -/
structure ShowsEntry {μ : Type u} {α : Type v} (entries : List α) (get? : Handle μ → Option α)
    (h : Handle μ) : Prop where
  null : h.toJson = .null ↔ h.isNull = true
  entry : h.isNull = false → ∃ i x, h.toJson = .nat i ∧ entries[i]? = some x ∧ get? h = some x

/-- From `v`, in which no object has a member twice, the snapshot of `m` is read as it is, and
each handle in it is shown by what it names. -/
structure Recovers (m : Built) (v : Value) : Prop where
  written : v = m.snapshot.toJson
  wellFormed : v.WellFormed
  snapshot : Snapshot.ofJson? m.id v = some m.snapshot
  types : ∀ h ∈ m.snapshot.typeHandles, ShowsEntry m.snapshot.types m.atlas.type? h
  structures : ∀ h ∈ m.snapshot.structureHandles,
    ShowsEntry m.snapshot.structures m.atlas.structure? h

/-- A handle that its registry knows is shown by its position. -/
theorem showsEntry_of_known {μ : Type u} {α : Type v} {r : Registry μ α} {h : Handle μ}
    (hh : h = .null ∨ (r.get? h).isSome = true) : ShowsEntry r.values r.get? h := by
  refine ⟨h.toJson_eq_null_iff, fun hnull => ?_⟩
  obtain ⟨x, hx⟩ := Option.isSome_iff_exists.1 (hh.resolve_left fun he => by
    rw [he] at hnull
    exact nomatch hnull)
  obtain ⟨k, i, rfl, -, hi⟩ := Registry.get?_eq_some_iff.1 hx
  exact ⟨i, x, rfl, hi, hx⟩

/-- A handle that its registry knows stays if the identifier of the registry does. -/
theorem relocate_of_known {μ : Type u} {α : Type v} {r : Registry μ α} {h : Handle μ}
    (hh : h = .null ∨ (r.get? h).isSome = true) :
    h.relocate (fun _ => r.arena.id) = h := by
  rcases hh with rfl | hsome
  · rfl
  · obtain ⟨i, rfl, -⟩ := (Registry.isSome_get?_iff r h).1 hsome
    rfl

namespace Built

variable (m : Built.{u}) (n : Built.{v})

theorem noneDangles : m.atlas.NoneDangles := by
  obtain ⟨_, _, _, _, _, _, hb⟩ := m.built
  exact noneDangles_of_build hb

theorem id_eq : m.atlas.structures.arena.id = m.id ∧ m.atlas.types.arena.id = m.id := by
  obtain ⟨_, _, _, _, _, _, hb⟩ := m.built
  exact id_of_build hb

/-- The atlas knows all handles of its snapshot. -/
theorem knows : m.atlas.Knows m.snapshot.typeHandles m.snapshot.structureHandles :=
  (Knows.flatMap fun _ hs => m.noneDangles.knows_structure hs).append
    (Knows.flatMap fun _ he => m.noneDangles.knows_type he)

/-- All handles of a built atlas are its own. -/
theorem relocate_snapshot : (m.snapshot.relocate fun _ => m.id) = m.snapshot := by
  obtain ⟨hstructures, htypes⟩ := m.id_eq
  refine Snapshot.relocate_eq_self (fun h hh => ?_) fun h hh => ?_
  · rw [← htypes]
    exact relocate_of_known (m.knows.types h hh)
  · rw [← hstructures]
    exact relocate_of_known (m.knows.structures h hh)

/-- A built atlas is recovered from what is written of it. -/
theorem recovers : Recovers m m.snapshot.toJson where
  written := rfl
  wellFormed := m.snapshot.wellFormed_toJson
  snapshot := by rw [Snapshot.ofJson?_toJson, m.relocate_snapshot]
  types h hh := showsEntry_of_known (m.knows.types h hh)
  structures h hh := showsEntry_of_known (m.knows.structures h hh)

/-- Snapshots that are the same by positions differ in their arenas at most. -/
theorem byPosition_eq_iff :
    m.snapshot.byPosition = n.snapshot.byPosition ↔
      m.snapshot.SameButForArenas n.snapshot := by
  constructor
  · intro h
    refine ⟨Equiv.swap m.id n.id, ?_⟩
    have hmoved (s : Snapshot) :
        (s.byPosition.relocate fun _ => n.id) = s.relocate fun _ => n.id :=
      s.relocate_relocate _ _
    calc m.snapshot.relocate (Equiv.swap m.id n.id)
        = (m.snapshot.relocate fun _ => m.id).relocate (Equiv.swap m.id n.id) := by
          rw [m.relocate_snapshot]
      _ = m.snapshot.relocate fun _ => n.id := by
          rw [Snapshot.relocate_relocate]
          congr 1
          funext _
          exact Equiv.swap_apply_left ..
      _ = n.snapshot.relocate fun _ => n.id := by rw [← hmoved, h, hmoved]
      _ = n.snapshot := n.relocate_snapshot
  · rintro ⟨f, hf⟩
    rw [← hf, Snapshot.byPosition_relocate]

end Built

/-- The text of any number of built atlases is read as an array with a value for each, from
which it is recovered, and the same text is written for others only if these differ in their
arenas at most. -/
theorem export_faithful (ms : List Built.{u}) (ns : List Built.{v}) :
    (∃ vs, parse? (Snapshot.prettyAll (ms.map Built.snapshot)) = some (.array vs) ∧
        List.Forall₂ Recovers ms vs) ∧
      (Snapshot.prettyAll (ms.map Built.snapshot) =
          Snapshot.prettyAll (ns.map Built.snapshot) ↔
        List.Forall₂ (fun m n => m.snapshot.SameButForArenas n.snapshot) ms ns) := by
  constructor
  · refine ⟨_, Snapshot.parse?_prettyAll _, ?_⟩
    rw [List.map_map, List.forall₂_map_right_iff, List.forall₂_same]
    exact fun m _ => m.recovers
  · rw [Snapshot.prettyAll_inj, List.forall₂_map_left_iff, List.forall₂_map_right_iff]
    simp only [Built.byPosition_eq_iff]

/-- The same source surveyed twice, in other arenas, is exported as the same text. -/
theorem export_faithful_linked : ∃ m n : Built.{0},
    m.snapshot.typeHandles ≠ [] ∧ m.snapshot ≠ n.snapshot ∧
      Snapshot.prettyAll [m.snapshot] = Snapshot.prettyAll [n.snapshot] := by
  let m := Built.ofSurvey "linked" (.standard {}) 9 Script.linked ⟨1⟩ rfl
  let n := Built.ofSurvey "linked" (.standard {}) 9 Script.linked ⟨2⟩ rfl
  have hsame : m.snapshot.SameButForArenas n.snapshot :=
    (m.byPosition_eq_iff n).1 (by decide +kernel)
  refine ⟨m, n, by decide +kernel, by decide +kernel, ?_⟩
  exact (export_faithful [m] [n]).2.2 (.cons hsame .nil)

end Survey

end DeclAtlas
