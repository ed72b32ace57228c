import DeclAtlas.Json.Access
import DeclAtlas.Proofs.Json.RoundTrip
import DeclAtlas.Proofs.Relocation
import Mathlib

/-!
# Reading snapshots

A snapshot can be read from the value that is written of it. Members are found by their
names, kinds and states by their labels, and a position is read as the handle of that
position; all that the value does not tell is in which arena it is. So reading undoes
writing up to relocation, and snapshots that differ in more are not written alike.

## Main results

* `Snapshot.ofJson?_toJson`: what is read from a written snapshot is that snapshot, in the
  arenas that the reader is told.
* `Snapshot.wellFormed_toJson`: JSON can spell what is written of a snapshot.
* `Snapshot.parse?_prettyAll`, `Snapshot.prettyAll_inj`: so texts can be read as well, and
  they are the same for snapshots that are the same by positions, and for no others.
-/

universe u v

namespace DeclAtlas

open Json Json.Value

/-! ## Members and lists -/

namespace Json.Value

variable {α : Type u} {β : Type v}

/-- Reads the member with a name, the first if there are several. -/
def read? (read : Value → Option α) (name : String) (v : Value) : Option α :=
  (v.member? name).bind read

/-- Reads each item of an array. -/
def list? (read : Value → Option α) (v : Value) : Option (List α) :=
  v.items?.bind (·.mapM read)

/-- Reads what a label stands for. -/
def label? (ofLabel? : String → Option α) (v : Value) : Option α := v.text?.bind ofLabel?

@[simp] theorem text?_text (s : String) : (text s).text? = some s := rfl

@[simp] theorem bool?_bool (b : Bool) : (bool b).bool? = some b := rfl

@[simp] theorem nat?_nat (n : Nat) : (nat n).nat? = some n := by
  have hint : (nat n).int? = some (n : Int) := Nat.toInt?_repr n
  simp [nat?, hint]

theorem member?_record_cons (key name : String) (v : Value) (members : List (String × Value)) :
    (record ((key, v) :: members)).member? name =
      if key = name then some v else (record members).member? name := by
  by_cases h : key = name <;> simp [record, member?, h]

theorem list?_map {read : Value → Option β} {write : α → Value} {f : α → β}
    (h : ∀ x, read (write x) = some (f x)) (xs : List α) :
    list? read (array (xs.map write)) = some (xs.map f) := by
  simp only [list?, items?, Option.bind_some]
  induction xs with
  | nil => rfl
  | cons x xs ih => simp [h, ih]

theorem WellFormed.array_map {write : α → Value} (h : ∀ x, (write x).WellFormed) (xs : List α) :
    (Value.array (xs.map write)).WellFormed :=
  WellFormed.array (List.forall_mem_map.2 fun x _ => h x)

end Json.Value

/-! ## Labels -/

/-- The structure kind with a label. -/
def StructureKind.ofLabel? (s : String) : Option StructureKind :=
  [unsupported, structWord, classWord].find? (·.label = s)

/-- The scope kind with a label. -/
def ScopeKind.ofLabel? (s : String) : Option ScopeKind :=
  [unsupported, namespaceScope, structureScope].find? (·.label = s)

@[simp] theorem ParameterKind.ofLabel?_label (k : ParameterKind) :
    ofLabel? k.label = some k := by
  cases k <;> rfl

@[simp] theorem TypeState.ofLabel?_label (s : TypeState) : ofLabel? s.label = some s := by
  cases s <;> rfl

@[simp] theorem StructureKind.ofLabel?_label (k : StructureKind) :
    ofLabel? k.label = some k := by
  cases k <;> rfl

@[simp] theorem ScopeKind.ofLabel?_label (k : ScopeKind) : ofLabel? k.label = some k := by
  cases k <;> rfl

@[simp] theorem Visibility.ofLabel?_label (v : Visibility) : ofLabel? v.label = some v := by
  cases v <;> rfl

@[simp] theorem TypeKind.ofLabel?_label (k : TypeKind) : ofLabel? k.label = some k := by
  cases k <;> rfl

/-! ## Entries -/

variable (id : ArenaId)

/-- Reads a handle: null for none, a position as that of an arena. -/
def Handle.ofJson? {μ : Type u} : Value → Option (Handle μ)
  | .null => some .null
  | v => v.nat?.map (.entry id)

def Location.ofJson? (v : Value) : Option Location := do
  return {
    file := ← v.read? text? "file"
    line := ← v.read? nat? "line"
    column := ← v.read? nat? "column" }

def TemplateParameter.ofJson? (v : Value) : Option TemplateParameter := do
  return {
    type := ← v.read? (Handle.ofJson? id) "type"
    identifier := ← v.read? text? "identifier"
    kind := ← v.read? (label? ParameterKind.ofLabel?) "kind" }

def TemplateArgument.ofJson? (v : Value) : Option TemplateArgument := do
  return {
    parameter := ← v.read? (TemplateParameter.ofJson? id) "parameter"
    value := ← v.read? text? "value" }

def TypeEntry.ofJson? (v : Value) : Option TypeEntry := do
  return {
    qualifiedName := ← v.read? text? "qualified_name"
    identifier := ← v.read? text? "identifier"
    isConst := ← v.read? bool? "is_const"
    kind := ← v.read? (label? TypeKind.ofLabel?) "kind"
    dimensions := ← v.read? nat? "dimensions"
    base := ← v.read? (Handle.ofJson? id) "base"
    baseStructure := ← v.read? (Handle.ofJson? id) "base_structure"
    templateArguments := ← v.read? (list? (TemplateArgument.ofJson? id)) "template_arguments"
    state := ← v.read? (label? TypeState.ofLabel?) "state" }

def Field.ofJson? (v : Value) : Option Field := do
  return {
    location := ← v.read? Location.ofJson? "location"
    qualifiedName := ← v.read? text? "qualified_name"
    identifier := ← v.read? text? "identifier"
    type := ← v.read? (Handle.ofJson? id) "type"
    visibility := ← v.read? (label? Visibility.ofLabel?) "visibility" }

def MethodParameter.ofJson? (v : Value) : Option MethodParameter := do
  return {
    type := ← v.read? (Handle.ofJson? id) "type"
    identifier := ← v.read? text? "identifier" }

/-- Reads the flags of a method from the members of whatever carries them. -/
def MethodFlags.ofJson? (v : Value) : Option MethodFlags := do
  return {
    isVirtual := ← v.read? bool? "is_virtual"
    isPure := ← v.read? bool? "is_pure"
    isStatic := ← v.read? bool? "is_static"
    isConst := ← v.read? bool? "is_const"
    isCtor := ← v.read? bool? "is_ctor" }

def Method.ofJson? (v : Value) : Option Method := do
  return {
    parameters := ← v.read? (list? (MethodParameter.ofJson? id)) "parameters"
    location := ← v.read? Location.ofJson? "location"
    identifier := ← v.read? text? "identifier"
    qualifiedName := ← v.read? text? "qualified_name"
    returnType := ← v.read? (Handle.ofJson? id) "return_type"
    visibility := ← v.read? (label? Visibility.ofLabel?) "visibility"
    flags := ← MethodFlags.ofJson? v }

def PathNode.ofJson? (v : Value) : Option PathNode := do
  return {
    identifier := ← v.read? text? "identifier"
    structureHandle := ← v.read? (Handle.ofJson? id) "structure"
    kind := ← v.read? (label? ScopeKind.ofLabel?) "kind" }

def Structure.ofJson? (v : Value) : Option Structure := do
  return {
    qualifiedName := ← v.read? text? "qualified_name"
    identifier := ← v.read? text? "identifier"
    kind := ← v.read? (label? StructureKind.ofLabel?) "kind"
    visibility := ← v.read? (label? Visibility.ofLabel?) "visibility"
    templateParameters := ← v.read? (list? (TemplateParameter.ofJson? id)) "template_parameters"
    fields := ← v.read? (list? (Field.ofJson? id)) "fields"
    methods := ← v.read? (list? (Method.ofJson? id)) "methods"
    parents := ← v.read? (list? (Handle.ofJson? id)) "parents"
    path := ← v.read? (list? (PathNode.ofJson? id)) "path" }

def Snapshot.ofJson? (v : Value) : Option Snapshot := do
  return {
    source := ← v.read? text? "source"
    structures := ← v.read? (list? (Structure.ofJson? id)) "structures"
    types := ← v.read? (list? (TypeEntry.ofJson? id)) "types" }

/-! ## Reading what was written -/

theorem Handle.ofJson?_toJson {μ : Type u} (h : Handle μ) :
    ofJson? id h.toJson = some (h.relocate fun _ => id) := by
  cases h with
  | null => rfl
  | entry arena i =>
      show (nat i).nat?.map (Handle.entry id) = _
      rw [nat?_nat]
      rfl

theorem Location.ofJson?_toJson (l : Location) : ofJson? l.toJson = some l := by
  simp [ofJson?, toJson, read?, member?_record_cons]

theorem TemplateParameter.ofJson?_toJson (p : TemplateParameter) :
    ofJson? id p.toJson = some (p.relocate fun _ => id) := by
  simp [ofJson?, toJson, read?, member?_record_cons, Handle.ofJson?_toJson, label?, relocate]

theorem TemplateArgument.ofJson?_toJson (a : TemplateArgument) :
    ofJson? id a.toJson = some (a.relocate fun _ => id) := by
  simp [ofJson?, toJson, read?, member?_record_cons, TemplateParameter.ofJson?_toJson, relocate]

theorem TypeEntry.ofJson?_toJson (e : TypeEntry) :
    ofJson? id e.toJson = some (e.relocate fun _ => id) := by
  simp [ofJson?, toJson, read?, member?_record_cons, Handle.ofJson?_toJson, label?, relocate,
    list?_map (TemplateArgument.ofJson?_toJson id)]

theorem Field.ofJson?_toJson (x : Field) :
    ofJson? id x.toJson = some (x.relocate fun _ => id) := by
  simp [ofJson?, toJson, read?, member?_record_cons, Handle.ofJson?_toJson, label?, relocate,
    Location.ofJson?_toJson]

theorem MethodParameter.ofJson?_toJson (p : MethodParameter) :
    ofJson? id p.toJson = some (p.relocate fun _ => id) := by
  simp [ofJson?, toJson, read?, member?_record_cons, Handle.ofJson?_toJson, relocate]

theorem Method.ofJson?_toJson (m : Method) :
    ofJson? id m.toJson = some (m.relocate fun _ => id) := by
  simp [ofJson?, toJson, read?, member?_record_cons, Handle.ofJson?_toJson, label?, relocate,
    Location.ofJson?_toJson, MethodFlags.members, MethodFlags.ofJson?,
    list?_map (MethodParameter.ofJson?_toJson id)]

theorem PathNode.ofJson?_toJson (n : PathNode) :
    ofJson? id n.toJson = some (n.relocate fun _ => id) := by
  simp [ofJson?, toJson, read?, member?_record_cons, Handle.ofJson?_toJson, label?, relocate]

theorem Structure.ofJson?_toJson (s : Structure) :
    ofJson? id s.toJson = some (s.relocate fun _ => id) := by
  simp [ofJson?, toJson, read?, member?_record_cons, label?, relocate,
    list?_map (TemplateParameter.ofJson?_toJson id), list?_map (Field.ofJson?_toJson id),
    list?_map (Method.ofJson?_toJson id), list?_map (Handle.ofJson?_toJson id),
    list?_map (PathNode.ofJson?_toJson id)]

theorem Snapshot.ofJson?_toJson (s : Snapshot) :
    ofJson? id s.toJson = some (s.relocate fun _ => id) := by
  simp [ofJson?, toJson, read?, member?_record_cons, relocate,
    list?_map (Structure.ofJson?_toJson id), list?_map (TypeEntry.ofJson?_toJson id)]

/-! ## What JSON can spell -/

theorem Handle.wellFormed_toJson {μ : Type u} (h : Handle μ) : h.toJson.WellFormed := by
  cases h with
  | null => exact .null
  | entry arena i => exact .nat i

theorem Location.wellFormed_toJson (l : Location) : l.toJson.WellFormed :=
  .record (by simp) (by simp [WellFormed.text, WellFormed.nat])

theorem TemplateParameter.wellFormed_toJson (p : TemplateParameter) : p.toJson.WellFormed :=
  .record (by simp) (by simp [WellFormed.text, Handle.wellFormed_toJson])

theorem TemplateArgument.wellFormed_toJson (a : TemplateArgument) : a.toJson.WellFormed :=
  .record (by simp) (by simp [WellFormed.text, TemplateParameter.wellFormed_toJson])

theorem TypeEntry.wellFormed_toJson (e : TypeEntry) : e.toJson.WellFormed :=
  .record (by simp) (by simp [WellFormed.text, WellFormed.bool, WellFormed.nat,
    Handle.wellFormed_toJson, WellFormed.array_map TemplateArgument.wellFormed_toJson])

theorem Field.wellFormed_toJson (x : Field) : x.toJson.WellFormed :=
  .record (by simp) (by simp [WellFormed.text, Handle.wellFormed_toJson,
    Location.wellFormed_toJson])

theorem MethodParameter.wellFormed_toJson (p : MethodParameter) : p.toJson.WellFormed :=
  .record (by simp) (by simp [WellFormed.text, Handle.wellFormed_toJson])

/-- The flags have other names than what carries them. -/
theorem Method.wellFormed_toJson (m : Method) : m.toJson.WellFormed :=
  .record (by simp [MethodFlags.members]) (by simp [WellFormed.text, WellFormed.bool,
    Handle.wellFormed_toJson, Location.wellFormed_toJson, MethodFlags.members,
    WellFormed.array_map MethodParameter.wellFormed_toJson])

theorem PathNode.wellFormed_toJson (n : PathNode) : n.toJson.WellFormed :=
  .record (by simp) (by simp [WellFormed.text, Handle.wellFormed_toJson])

theorem Structure.wellFormed_toJson (s : Structure) : s.toJson.WellFormed :=
  .record (by simp) (by simp [WellFormed.text,
    WellFormed.array_map TemplateParameter.wellFormed_toJson,
    WellFormed.array_map Field.wellFormed_toJson, WellFormed.array_map Method.wellFormed_toJson,
    WellFormed.array_map Handle.wellFormed_toJson,
    WellFormed.array_map PathNode.wellFormed_toJson])

namespace Snapshot

theorem wellFormed_toJson (s : Snapshot) : s.toJson.WellFormed :=
  .record (by simp) (by simp [WellFormed.text,
    WellFormed.array_map Structure.wellFormed_toJson,
    WellFormed.array_map TypeEntry.wellFormed_toJson])

/-! ## Texts -/

variable {s t : Snapshot} {ss ts : List Snapshot}

/-- The text of several snapshots is read as the array of what is written of each. -/
theorem parse?_prettyAll (ss : List Snapshot) :
    parse? (prettyAll ss) = some (.array (ss.map toJson)) :=
  parse?_pretty (.array_map wellFormed_toJson ss)

/-- Snapshots are written alike if they are the same by positions, and only then. -/
theorem toJson_inj : s.toJson = t.toJson ↔ s.byPosition = t.byPosition := by
  constructor
  · intro h
    have hread := ofJson?_toJson ⟨0⟩ s
    rw [h, ofJson?_toJson] at hread
    exact (Option.some.inj hread).symm
  · intro h
    have hjson := congrArg toJson h
    unfold byPosition at hjson
    rwa [toJson_relocate, toJson_relocate] at hjson

theorem pretty_inj : s.pretty = t.pretty ↔ s.byPosition = t.byPosition := by
  rw [← toJson_inj]
  constructor
  · exact pretty_injective s.wellFormed_toJson t.wellFormed_toJson
  · exact congrArg Value.pretty

theorem prettyAll_inj :
    prettyAll ss = prettyAll ts ↔
      List.Forall₂ (fun s t => s.byPosition = t.byPosition) ss ts := by
  have htexts : prettyAll ss = prettyAll ts ↔ ss.map toJson = ts.map toJson := by
    refine ⟨fun h => ?_, fun h => congrArg (fun vs => (Value.array vs).pretty) h⟩
    have hread := parse?_prettyAll ss
    rw [h, parse?_prettyAll] at hread
    exact (Value.array.inj (Option.some.inj hread)).symm
  simp only [← toJson_inj]
  rw [htexts, ← List.forall₂_eq_eq_eq, List.forall₂_map_left_iff, List.forall₂_map_right_iff]

end Snapshot

end DeclAtlas
