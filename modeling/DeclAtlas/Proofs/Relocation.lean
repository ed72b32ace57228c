import DeclAtlas.Snapshot
import Mathlib.Data.List.Basic

/-!
# Relocation

Which identifiers the arenas of an atlas have is chance: they are what the supply had to give
when the atlas was made. Relocating an atlas changes the identifiers, in its arenas and in
all handles in it at once. If no two identifiers become one, whatever is done with an atlas
can be done after relocating as well as before. So an atlas differs from its relocations in
nothing but where it is, and in its snapshot, where handles are told by their positions, not
even in that.

## Main results

* `Registry.enter_relocate`, `Registry.modify_relocate`: a registry can be relocated before or
  after.
* `Atlas.enterType_relocate`, `Atlas.modifyType_relocate` and their likes for structures.
* `Snapshot.byPosition_relocate`, `Snapshot.toJson_relocate`: a snapshot does not tell where
  its atlas is.
-/

universe u v

namespace DeclAtlas

variable {f : ArenaId → ArenaId}

/-! ## Handles -/

namespace Handle

variable {μ : Type u}

/-- The handle of the same position in the arena that `f` leads to. -/
def relocate (f : ArenaId → ArenaId) : Handle μ → Handle μ
  | null => null
  | entry arena i => entry (f arena) i

@[simp] theorem isNull_relocate (f : ArenaId → ArenaId) (h : Handle μ) :
    (h.relocate f).isNull = h.isNull := by
  cases h <;> rfl

@[simp] theorem relocate_relocate (f g : ArenaId → ArenaId) (h : Handle μ) :
    (h.relocate f).relocate g = h.relocate (g ∘ f) := by
  cases h <;> rfl

theorem relocate_injective (hf : Function.Injective f) :
    Function.Injective (relocate f : Handle μ → Handle μ) := by
  intro h h' heq
  cases h with
  | null =>
      cases h' with
      | null => rfl
      | entry arena i => exact nomatch heq
  | entry arena i =>
      cases h' with
      | null => exact nomatch heq
      | entry arena' i' =>
          obtain ⟨harena, rfl⟩ := Handle.entry.inj heq
          rw [hf harena]

theorem toJson_relocate (f : ArenaId → ArenaId) (h : Handle μ) :
    (h.relocate f).toJson = h.toJson := by
  cases h <;> rfl

end Handle

/-! ## Entries -/

def TemplateParameter.relocate (f : ArenaId → ArenaId) (p : TemplateParameter) :
    TemplateParameter :=
  { p with type := p.type.relocate f }

def TemplateArgument.relocate (f : ArenaId → ArenaId) (a : TemplateArgument) :
    TemplateArgument :=
  { a with parameter := a.parameter.relocate f }

def TypeEntry.relocate (f : ArenaId → ArenaId) (e : TypeEntry) : TypeEntry :=
  { e with
    base := e.base.relocate f
    baseStructure := e.baseStructure.relocate f
    templateArguments := e.templateArguments.map (·.relocate f) }

def Field.relocate (f : ArenaId → ArenaId) (x : Field) : Field :=
  { x with type := x.type.relocate f }

def MethodParameter.relocate (f : ArenaId → ArenaId) (p : MethodParameter) : MethodParameter :=
  { p with type := p.type.relocate f }

def Method.relocate (f : ArenaId → ArenaId) (m : Method) : Method :=
  { m with
    parameters := m.parameters.map (·.relocate f)
    returnType := m.returnType.relocate f }

def PathNode.relocate (f : ArenaId → ArenaId) (n : PathNode) : PathNode :=
  { n with structureHandle := n.structureHandle.relocate f }

def Structure.relocate (f : ArenaId → ArenaId) (s : Structure) : Structure :=
  { s with
    templateParameters := s.templateParameters.map (·.relocate f)
    fields := s.fields.map (·.relocate f)
    methods := s.methods.map (·.relocate f)
    parents := s.parents.map (·.relocate f)
    path := s.path.map (·.relocate f) }

section Twice

variable (f g : ArenaId → ArenaId)

@[simp] theorem TypeEntry.relocate_relocate (e : TypeEntry) :
    (e.relocate f).relocate g = e.relocate (g ∘ f) := by
  simp [relocate, TemplateArgument.relocate, TemplateParameter.relocate]

@[simp] theorem Structure.relocate_relocate (s : Structure) :
    (s.relocate f).relocate g = s.relocate (g ∘ f) := by
  simp [relocate, TemplateParameter.relocate, Field.relocate, Method.relocate,
    MethodParameter.relocate, PathNode.relocate]

end Twice

/-! What is written of an entry has no identifiers of arenas in it. -/

section Json

variable (f : ArenaId → ArenaId)

theorem TemplateParameter.toJson_relocate (p : TemplateParameter) :
    (p.relocate f).toJson = p.toJson := by
  simp [toJson, relocate, Handle.toJson_relocate]

theorem TemplateArgument.toJson_relocate (a : TemplateArgument) :
    (a.relocate f).toJson = a.toJson := by
  simp [toJson, relocate, TemplateParameter.toJson_relocate]

theorem TypeEntry.toJson_relocate (e : TypeEntry) : (e.relocate f).toJson = e.toJson := by
  simp [toJson, relocate, Handle.toJson_relocate, TemplateArgument.toJson_relocate,
    Function.comp_def]

theorem Field.toJson_relocate (x : Field) : (x.relocate f).toJson = x.toJson := by
  simp [toJson, relocate, Handle.toJson_relocate]

theorem MethodParameter.toJson_relocate (p : MethodParameter) :
    (p.relocate f).toJson = p.toJson := by
  simp [toJson, relocate, Handle.toJson_relocate]

theorem Method.toJson_relocate (m : Method) : (m.relocate f).toJson = m.toJson := by
  simp [toJson, relocate, Handle.toJson_relocate, MethodParameter.toJson_relocate,
    Function.comp_def]

theorem PathNode.toJson_relocate (n : PathNode) : (n.relocate f).toJson = n.toJson := by
  simp [toJson, relocate, Handle.toJson_relocate]

theorem Structure.toJson_relocate (s : Structure) : (s.relocate f).toJson = s.toJson := by
  simp [toJson, relocate, TemplateParameter.toJson_relocate, Field.toJson_relocate,
    Method.toJson_relocate, Handle.toJson_relocate, PathNode.toJson_relocate,
    Function.comp_def]

end Json

/-! ## Registries -/

namespace Arena

variable {μ : Type u} {α : Type v} {φ φ' ψ : α → α}

/-- The arena that `f` leads to, with its values changed by `ψ`. -/
def relocate (f : ArenaId → ArenaId) (ψ : α → α) (a : Arena μ α) : Arena μ α :=
  ⟨f a.id, a.items.map ψ⟩

@[simp] theorem size_relocate (a : Arena μ α) : (a.relocate f ψ).size = a.size :=
  List.length_map ..

theorem map_modify (h : ∀ x, ψ (φ x) = φ' (ψ x)) (xs : List α) (i : Nat) :
    (xs.modify i φ).map ψ = (xs.map ψ).modify i φ' := by
  induction xs generalizing i with
  | nil => cases i <;> rfl
  | cons x xs ih =>
      cases i with
      | zero => exact congrArg (· :: xs.map ψ) (h x)
      | succ i => exact congrArg (ψ x :: ·) (ih i)

theorem modify_relocate (hf : Function.Injective f) (h : ∀ x, ψ (φ x) = φ' (ψ x))
    (a : Arena μ α) (x : Handle μ) :
    (a.modify x φ).relocate f ψ = (a.relocate f ψ).modify (x.relocate f) φ' := by
  cases x with
  | null => rfl
  | entry arena i =>
      unfold modify
      dsimp only [Handle.relocate]
      by_cases hid : arena = a.id
      · rw [if_pos hid, if_pos (show f arena = (a.relocate f ψ).id from congrArg f hid)]
        exact congrArg (mk (f a.id)) (map_modify h ..)
      · rw [if_neg hid, if_neg (show f arena ≠ (a.relocate f ψ).id from fun heq => hid (hf heq))]

end Arena

namespace Registry

variable {μ : Type u} {α : Type v} {φ φ' ψ : α → α}

/-- The registry that `f` leads to, with its values changed by `ψ`. -/
def relocate (f : ArenaId → ArenaId) (ψ : α → α) (r : Registry μ α) : Registry μ α where
  arena := r.arena.relocate f ψ
  index := r.index
  aligned := by rw [r.aligned, Arena.size_relocate]

theorem find_relocate (r : Registry μ α) (key : String) :
    (r.relocate f ψ).find key = (r.find key).relocate f := by
  unfold find
  show ((r.index.lookup key).bind (r.arena.relocate f ψ).handle?).getD .null = _
  cases r.index.lookup key with
  | none => rfl
  | some i =>
      unfold Arena.handle? Arena.handleAt
      simp only [Option.bind_some, Arena.size_relocate]
      split
      · rfl
      · rfl

theorem enter_relocate (r : Registry μ α) (key : String) (fresh : α) :
    (r.relocate f ψ).enter key (ψ fresh) =
      ((r.enter key fresh).1.relocate f, (r.enter key fresh).2.1,
        (r.enter key fresh).2.2.relocate f ψ) := by
  unfold enter
  rw [find_relocate, Handle.isNull_relocate]
  split
  · refine Prod.ext ?_ (Prod.ext rfl ?_)
    · simp [Arena.push, Arena.handleAt, Handle.relocate, relocate, Arena.relocate, Arena.size]
    · simp [Arena.push, Arena.handleAt, Handle.index, relocate, Arena.relocate, Arena.size]
  · rfl

theorem modify_relocate (hf : Function.Injective f) (h : ∀ x, ψ (φ x) = φ' (ψ x))
    (r : Registry μ α) (x : Handle μ) :
    (r.modify x φ).relocate f ψ = (r.relocate f ψ).modify (x.relocate f) φ' := by
  unfold modify relocate
  simp only [Arena.modify_relocate hf h]

end Registry

/-! ## Atlases -/

namespace Atlas

/-- The atlas with all arenas and handles where `f` leads to. -/
def relocate (f : ArenaId → ArenaId) (a : Atlas) : Atlas where
  structures := a.structures.relocate f (·.relocate f)
  types := a.types.relocate f (·.relocate f)

theorem relocate_empty (f : ArenaId → ArenaId) (id : ArenaId) :
    (empty id).relocate f = empty (f id) := rfl

theorem findStructure_relocate (f : ArenaId → ArenaId) (a : Atlas) (name : String) :
    (a.relocate f).findStructure name = (a.findStructure name).relocate f :=
  Registry.find_relocate ..

theorem enterStructure_relocate (f : ArenaId → ArenaId) (a : Atlas) (name : String) :
    (a.relocate f).enterStructure name =
      ((a.enterStructure name).1.relocate f, (a.enterStructure name).2.1,
        (a.enterStructure name).2.2.relocate f) := by
  have henter : (a.structures.relocate f (·.relocate f)).enter name
      (Structure.relocate f { qualifiedName := name }) = _ := Registry.enter_relocate ..
  unfold enterStructure
  dsimp only [relocate]
  exact congrArg (fun p => (p.1, p.2.1, Atlas.mk p.2.2 (a.relocate f).types)) henter

theorem enterType_relocate (f : ArenaId → ArenaId) (a : Atlas) (name : String) :
    (a.relocate f).enterType name =
      ((a.enterType name).1.relocate f, (a.enterType name).2.1,
        (a.enterType name).2.2.relocate f) := by
  have henter : (a.types.relocate f (·.relocate f)).enter name
      (TypeEntry.relocate f { qualifiedName := name }) = _ := Registry.enter_relocate ..
  unfold enterType
  dsimp only [relocate]
  exact congrArg (fun p => (p.1, p.2.1, Atlas.mk (a.relocate f).structures p.2.2)) henter

theorem modifyStructure_relocate (hf : Function.Injective f) {φ φ' : Structure → Structure}
    (h : ∀ s, (φ s).relocate f = φ' (s.relocate f)) (a : Atlas) (x : StructureHandle) :
    (a.modifyStructure x φ).relocate f = (a.relocate f).modifyStructure (x.relocate f) φ' :=
  congrArg (Atlas.mk · (a.relocate f).types) (Registry.modify_relocate hf h ..)

theorem modifyType_relocate (hf : Function.Injective f) {φ φ' : TypeEntry → TypeEntry}
    (h : ∀ e, (φ e).relocate f = φ' (e.relocate f)) (a : Atlas) (x : TypeHandle) :
    (a.modifyType x φ).relocate f = (a.relocate f).modifyType (x.relocate f) φ' :=
  congrArg (Atlas.mk (a.relocate f).structures) (Registry.modify_relocate hf h ..)

end Atlas

/-! ## Snapshots -/

namespace Snapshot

def relocate (f : ArenaId → ArenaId) (s : Snapshot) : Snapshot :=
  ⟨s.source, s.structures.map (·.relocate f), s.types.map (·.relocate f)⟩

theorem ofAtlas_relocate (f : ArenaId → ArenaId) (source : String) (a : Atlas) :
    ofAtlas source (a.relocate f) = (ofAtlas source a).relocate f := rfl

/-- The snapshot with handles told by their positions alone. -/
def byPosition (s : Snapshot) : Snapshot := s.relocate fun _ => ⟨0⟩

/-- A snapshot by positions does not tell where its atlas is. -/
theorem byPosition_relocate (f : ArenaId → ArenaId) (s : Snapshot) :
    (s.relocate f).byPosition = s.byPosition := by
  simp [byPosition, relocate, Function.comp_def]

/-- What is written of a snapshot does not tell it either. -/
theorem toJson_relocate (f : ArenaId → ArenaId) (s : Snapshot) :
    (s.relocate f).toJson = s.toJson := by
  simp [toJson, relocate, Function.comp_def, Structure.toJson_relocate,
    TypeEntry.toJson_relocate]

end Snapshot

end DeclAtlas
