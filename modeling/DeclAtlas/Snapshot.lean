import DeclAtlas.Atlas
import DeclAtlas.Json.Printer

/-!
# Snapshots

What is written of an atlas: its structures and types in the order they were entered, under
the name of what they were read from. A handle is written as the position it names in the
list of its own snapshot, and as null when it names nothing; which arena it belongs to is
not written.

## Main results

* `Handle.toJson_eq_null_iff`: null handles, and no others, are written as null.
-/

universe u

namespace DeclAtlas

open Json

/-- A handle as the position it names. -/
def Handle.toJson {μ : Type u} (h : Handle μ) : Value := Value.orNull (h.index?.map Value.nat)

/-- Null handles, and no others, are written as null. -/
theorem Handle.toJson_eq_null_iff {μ : Type u} (h : Handle μ) :
    h.toJson = Value.null ↔ h.isNull := by
  cases h <;> simp [Handle.toJson, Handle.index?, Handle.isNull, Value.orNull, Value.nat]

def Location.toJson (l : Location) : Value :=
  .record [("file", .text l.file), ("line", .nat l.line), ("column", .nat l.column)]

def TemplateParameter.toJson (p : TemplateParameter) : Value :=
  .record [("type", p.type.toJson), ("identifier", .text p.identifier),
    ("kind", .text p.kind.label)]

def TemplateArgument.toJson (a : TemplateArgument) : Value :=
  .record [("parameter", a.parameter.toJson), ("value", .text a.value)]

def TypeEntry.toJson (t : TypeEntry) : Value :=
  .record [("qualified_name", .text t.qualifiedName), ("identifier", .text t.identifier),
    ("is_const", .bool t.isConst), ("kind", .text t.kind.label),
    ("dimensions", .nat t.dimensions), ("base", t.base.toJson),
    ("base_structure", t.baseStructure.toJson),
    ("template_arguments", .array (t.templateArguments.map TemplateArgument.toJson)),
    ("state", .text t.state.label)]

def Field.toJson (f : Field) : Value :=
  .record [("location", f.location.toJson), ("qualified_name", .text f.qualifiedName),
    ("identifier", .text f.identifier), ("type", f.type.toJson),
    ("visibility", .text f.visibility.label)]

def MethodParameter.toJson (p : MethodParameter) : Value :=
  .record [("type", p.type.toJson), ("identifier", .text p.identifier)]

/-- The flags of a method, as members of whatever carries them. -/
def MethodFlags.members (f : MethodFlags) : List (String × Value) :=
  [("is_virtual", .bool f.isVirtual), ("is_pure", .bool f.isPure),
    ("is_static", .bool f.isStatic), ("is_const", .bool f.isConst),
    ("is_ctor", .bool f.isCtor)]

def Method.toJson (m : Method) : Value :=
  .record ([("parameters", .array (m.parameters.map MethodParameter.toJson)),
    ("location", m.location.toJson), ("identifier", .text m.identifier),
    ("qualified_name", .text m.qualifiedName), ("return_type", m.returnType.toJson),
    ("visibility", .text m.visibility.label)] ++ m.flags.members)

def PathNode.toJson (n : PathNode) : Value :=
  .record [("identifier", .text n.identifier), ("structure", n.structureHandle.toJson),
    ("kind", .text n.kind.label)]

def Structure.toJson (s : Structure) : Value :=
  .record [("qualified_name", .text s.qualifiedName), ("identifier", .text s.identifier),
    ("kind", .text s.kind.label), ("visibility", .text s.visibility.label),
    ("template_parameters", .array (s.templateParameters.map TemplateParameter.toJson)),
    ("fields", .array (s.fields.map Field.toJson)),
    ("methods", .array (s.methods.map Method.toJson)),
    ("parents", .array (s.parents.map Handle.toJson)),
    ("path", .array (s.path.map PathNode.toJson))]

/-- The structures and types of an atlas, with the name of what they were read from. -/
structure Snapshot where
  source : String
  structures : List Structure
  types : List TypeEntry
deriving DecidableEq

namespace Snapshot

/-- What is written of an atlas. -/
def ofAtlas (source : String) (a : Atlas) : Snapshot :=
  ⟨source, a.structures.values, a.types.values⟩

def toJson (s : Snapshot) : Value :=
  .record [("source", .text s.source),
    ("structures", .array (s.structures.map Structure.toJson)),
    ("types", .array (s.types.map TypeEntry.toJson))]

/-- A snapshot over several lines. -/
def pretty (s : Snapshot) : String := s.toJson.pretty

/-- Several snapshots as one array over several lines. -/
def prettyAll (ss : List Snapshot) : String := (Value.array (ss.map toJson)).pretty

end Snapshot

end DeclAtlas
