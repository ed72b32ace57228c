import DeclAtlas.Declaration.TypeKind

/-!
# Declarations

One declaration of a source file: what it declares, under which name, and where. A
declaration without a file is no declaration at all; it stands for the end of a stream
and for an answer that does not exist.
-/

namespace DeclAtlas

/-- A place in the source text. No file means no place. -/
structure Location where
  file : String := ""
  line : Nat := 0
  column : Nat := 0
deriving DecidableEq, Inhabited

/-- Is there no place? -/
def Location.isEmpty (l : Location) : Bool := l.file = ""

/-- What a declaration declares. -/
inductive DeclarationKind where
  | unsupported | structDecl | classDecl | baseSpecifier | field | method | function
  | parameter | namespaceDecl
deriving DecidableEq, Inhabited

namespace DeclarationKind

/-- How a kind is shown. -/
def label : DeclarationKind → String
  | unsupported => "unsupported"
  | structDecl => "struct"
  | classDecl => "class"
  | baseSpecifier => "base_specifier"
  | field => "field"
  | method => "method"
  | function => "function"
  | parameter => "parameter"
  | namespaceDecl => "namespace"

/-- Every kind. -/
def all : List DeclarationKind :=
  [unsupported, structDecl, classDecl, baseSpecifier, field, method, function, parameter,
   namespaceDecl]

/-- The kind with a label. -/
def ofLabel? (s : String) : Option DeclarationKind := all.find? (·.label = s)

/-- Is this a struct or class? -/
def isStructure : DeclarationKind → Bool
  | structDecl | classDecl => true
  | _ => false

end DeclarationKind

/-- Who may use a member. -/
inductive Visibility where
  | invalid | privateAccess | protectedAccess | publicAccess
deriving DecidableEq, Inhabited

namespace Visibility

/-- How a visibility is shown. -/
def label : Visibility → String
  | invalid => "invalid"
  | privateAccess => "private"
  | protectedAccess => "protected"
  | publicAccess => "public"

/-- Every visibility. -/
def all : List Visibility := [invalid, privateAccess, protectedAccess, publicAccess]

/-- The visibility with a label. -/
def ofLabel? (s : String) : Option Visibility := all.find? (·.label = s)

/-- The visibility that an access specifier grants. -/
def ofAccess (access : String) : Visibility :=
  match access with
  | "public" => publicAccess
  | "protected" => protectedAccess
  | "private" => privateAccess
  | _ => invalid

end Visibility

/-- One declaration of a source file. -/
structure Declaration where
  location : Location := {}
  /-- Its name with every enclosing scope, joined by `::`. -/
  qualifiedName : String := ""
  /-- Its name alone. -/
  identifier : String := ""
  kind : DeclarationKind := .unsupported
deriving DecidableEq, Inhabited

/-- Is this no declaration at all? -/
def Declaration.isEmpty (d : Declaration) : Bool := d.location.isEmpty

/-- What is said of a method beside its type. -/
structure MethodFlags where
  isVirtual : Bool := false
  isPure : Bool := false
  isStatic : Bool := false
  isConst : Bool := false
  isCtor : Bool := false
deriving DecidableEq, Inhabited

end DeclAtlas
