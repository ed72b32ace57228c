import DeclAtlas.Arena
import DeclAtlas.Declaration.Basic

/-!
# Structures and types

What an atlas holds. A structure is a struct or class with its members; a type entry is
one type under its canonical spelling. Both refer to others by handles, so a structure can
have a field whose type leads back to it.
-/

namespace DeclAtlas

/-- Marks the handles of structures. -/
inductive StructureMark

/-- Marks the handles of type entries. -/
inductive TypeMark

/-- A handle of a structure. -/
abbrev StructureHandle := Handle StructureMark

/-- A handle of a type entry. -/
abbrev TypeHandle := Handle TypeMark

/-! ## What the parts can be -/

/-- What a template parameter stands for. -/
inductive ParameterKind where
  | unsupported | type | nonType
deriving DecidableEq, Inhabited

/-- How a parameter kind is shown. -/
def ParameterKind.label : ParameterKind → String
  | unsupported => "unsupported"
  | type => "type"
  | nonType => "non_type"

/-- The parameter kind with a label. -/
def ParameterKind.ofLabel? (s : String) : Option ParameterKind :=
  [unsupported, type, nonType].find? (·.label = s)

/-- How far a type entry has been filled in. -/
inductive TypeState where
  /-- Entered by name only. -/
  | reserved
  /-- Its own layer is known; what lies below is being entered. -/
  | resolving
  /-- Complete. -/
  | resolved
deriving DecidableEq, Inhabited

/-- How a state is shown. -/
def TypeState.label : TypeState → String
  | reserved => "reserved"
  | resolving => "resolving"
  | resolved => "resolved"

/-- The state with a label. -/
def TypeState.ofLabel? (s : String) : Option TypeState :=
  [reserved, resolving, resolved].find? (·.label = s)

/-- Which word a structure was declared with. -/
inductive StructureKind where
  | unsupported | structWord | classWord
deriving DecidableEq, Inhabited

/-- How a structure kind is shown. -/
def StructureKind.label : StructureKind → String
  | unsupported => "unsupported"
  | structWord => "struct"
  | classWord => "class"

/-- The structure kind of a declaration. -/
def StructureKind.ofDeclaration : DeclarationKind → StructureKind
  | .structDecl => structWord
  | .classDecl => classWord
  | _ => unsupported

/-- What an enclosing scope is. -/
inductive ScopeKind where
  | unsupported | namespaceScope | structureScope
deriving DecidableEq, Inhabited

/-- How a scope kind is shown. -/
def ScopeKind.label : ScopeKind → String
  | unsupported => "unsupported"
  | namespaceScope => "namespace"
  | structureScope => "structure"

/-- The scope kind of a declaration. -/
def ScopeKind.ofDeclaration : DeclarationKind → ScopeKind
  | .structDecl | .classDecl => structureScope
  | .namespaceDecl => namespaceScope
  | _ => unsupported

/-! ## Type entries -/

/-- A template parameter, with the type it is declared with. -/
structure TemplateParameter where
  type : TypeHandle := .null
  identifier : String := ""
  kind : ParameterKind := .unsupported
deriving DecidableEq, Inhabited

/-- What a template parameter was given. -/
structure TemplateArgument where
  parameter : TemplateParameter := {}
  /-- The value of a parameter that is no type. -/
  value : String := ""
deriving DecidableEq, Inhabited

/-- A type under its canonical spelling. -/
structure TypeEntry where
  qualifiedName : String := ""
  identifier : String := ""
  isConst : Bool := false
  kind : TypeKind := .invalid
  dimensions : Nat := 0
  /-- What a pointer or reference leads to, an array holds or an alias stands for. -/
  base : TypeHandle := .null
  /-- The structure of a type of kind `struct`. -/
  baseStructure : StructureHandle := .null
  templateArguments : List TemplateArgument := []
  state : TypeState := .reserved
deriving DecidableEq, Inhabited

/-- Is the entry complete? -/
def TypeEntry.isResolved (t : TypeEntry) : Bool := t.state = .resolved

/-! ## Structures -/

/-- A data member. -/
structure Field where
  location : Location := {}
  qualifiedName : String := ""
  identifier : String := ""
  type : TypeHandle := .null
  visibility : Visibility := .invalid
deriving DecidableEq, Inhabited

/-- A parameter of a method. -/
structure MethodParameter where
  type : TypeHandle := .null
  identifier : String := ""
deriving DecidableEq, Inhabited

/-- A member function. -/
structure Method where
  parameters : List MethodParameter := []
  location : Location := {}
  identifier : String := ""
  qualifiedName : String := ""
  returnType : TypeHandle := .null
  visibility : Visibility := .invalid
  flags : MethodFlags := {}
deriving DecidableEq, Inhabited

/-- One of the scopes around a structure. -/
structure PathNode where
  identifier : String := ""
  /-- The enclosing structure, if it was entered before the path was read. -/
  structureHandle : StructureHandle := .null
  kind : ScopeKind := .unsupported
deriving DecidableEq, Inhabited

/-- A struct or class with its members. -/
structure Structure where
  qualifiedName : String := ""
  identifier : String := ""
  kind : StructureKind := .unsupported
  visibility : Visibility := .invalid
  templateParameters : List TemplateParameter := []
  fields : List Field := []
  methods : List Method := []
  /-- The base structures in the order they are written, repetitions included. -/
  parents : List StructureHandle := []
  /-- The scopes around it, outermost first. -/
  path : List PathNode := []
deriving DecidableEq, Inhabited

/--
The structure named and kinded after `d`. A structure declared several times is refined
each time; its members stay.
-/
def Structure.applyDeclaration (s : Structure) (d : Declaration) : Structure :=
  { s with
    qualifiedName := d.qualifiedName
    identifier := d.identifier
    kind := .ofDeclaration d.kind }

end DeclAtlas
