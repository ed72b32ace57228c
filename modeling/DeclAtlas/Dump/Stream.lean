import DeclAtlas.Dump.NameTable
import DeclAtlas.Dump.Node
import DeclAtlas.Shape.FunctionType
import DeclAtlas.Shape.Parser
import DeclAtlas.Word

/-!
# Streams of a syntax tree

A syntax tree is walked from the outside in and left to right. On the way every
declaration is put on a stream together with the declarations around it, and every record,
enum and alias is entered in a table of names. Declarations from system headers stay off
the stream, but the names they declare do not.

The walk remembers one thing beside stream and table: the access in force among the members
of the innermost record. It begins anew with every record and comes back at its end.
-/

namespace DeclAtlas.Dump

open Text

/-- A declaration on the stream. -/
structure StreamEntry where
  declaration : Declaration
  /-- The declarations around it, outermost first. -/
  ancestors : List Declaration
  /-- The type of a field or parameter, the return type of a function or the name of a
  base, as it is written. -/
  spelling : Option String
  visibility : Visibility
  flags : MethodFlags
deriving DecidableEq, Inhabited

/-- The qualified names of the scopes among some nested declarations, outermost first. -/
def scopesOf (ancestors : List Declaration) : List String :=
  (ancestors.filter fun d => d.kind = .namespaceDecl || d.kind.isStructure).map
    (·.qualifiedName)

/-- The qualified names of the scopes around a declaration, outermost first. -/
def StreamEntry.scope (e : StreamEntry) : List String := scopesOf e.ancestors

/-- What a walk has gathered. -/
structure Walk where
  entries : Array StreamEntry := #[]
  names : NameTable := {}
  /-- The access in force among the members of the innermost record. -/
  access : Visibility := .invalid
deriving Inhabited

/-! ## Places and names -/

/-- Where system headers are kept. -/
def systemPrefixes : List String :=
  ["/usr/include", "/usr/lib", "/usr/local/include", "/Library/Developer",
    "/Applications/Xcode"]

/-- Is this file a system header? -/
def isSystemHeader (file : String) : Bool := systemPrefixes.any (startsWith · file)

/-- The greatest line and column that are told apart. -/
def maxPosition : Nat := Word.maxUnsigned 32

/-- The place of a declaration; without a file it is in the file that is dumped. -/
def place (input : String) : Option Location → Location
  | none => ⟨input, 0, 0⟩
  | some l =>
    ⟨if l.file = "" then input else l.file, min l.line maxPosition, min l.column maxPosition⟩

/-- Is a declaration from a system header? One without a location is not. -/
def isSystem (input : String) (l : Option Location) : Bool :=
  l.isSome && isSystemHeader (place input l).file

/-- The qualified name of what is declared inside nested declarations. -/
def qualifiedIn (ancestors : List Declaration) (name : String) : String :=
  match ancestors.getLast? with
  | some d => qualify d.qualifiedName name
  | none => name

/-- The declaration of a name inside nested declarations. -/
def declare (input : String) (ancestors : List Declaration) (kind : DeclarationKind)
    (head : Head) (name : String) : Declaration where
  kind := kind
  qualifiedName := qualifiedIn ancestors name
  identifier := name
  location := place input head.location

/-- Is the innermost of nested declarations a struct or class? -/
def inRecord (ancestors : List Declaration) : Bool :=
  ancestors.getLast?.any (·.kind.isStructure)

/-! ## Steps of a walk -/

namespace Walk

/-- Puts a declaration on the stream, unless it is from a system header. -/
def push (w : Walk) (input : String) (head : Head) (e : StreamEntry) : Walk :=
  if isSystem input head.location then w else { w with entries := w.entries.push e }

/-- The visibility of a member: the access written for it, or the one in force. -/
def memberVisibility (w : Walk) (ancestors : List Declaration) (head : Head) : Visibility :=
  match head.access with
  | some access => .ofAccess access
  | none => if inRecord ancestors then w.access else .invalid

/-- Walks something with its own access in force; the former one comes back after it. -/
def within (w : Walk) (access : Visibility) (body : Walk → Walk) : Walk :=
  { body { w with access := access } with access := w.access }

/-- Changes the table of names. -/
def name (w : Walk) (f : NameTable → NameTable) : Walk := { w with names := f w.names }

/-- A field or parameter. -/
def value (w : Walk) (input : String) (ancestors : List Declaration)
    (kind : DeclarationKind) (head : Head) (type : Option String) : Walk :=
  if head.isImplicit then w
  else
    w.push input head {
      declaration := declare input ancestors kind head (head.name.getD "")
      ancestors := ancestors
      spelling := type
      visibility := w.memberVisibility ancestors head
      flags := {} }

/-- The parameters among the nodes inside a function. -/
def parameters (w : Walk) (input : String) (ancestors : List Declaration)
    (nodes : List Node) : Walk :=
  nodes.foldl (fun w n =>
    match n.payload with
    | .parameter head type => w.value input ancestors .parameter head type
    | _ => w) w

/-- A function with its parameters. Outside a record it is no method. -/
def function (w : Walk) (input : String) (ancestors : List Declaration)
    (role : FunctionRole) (head : Head) (facts : FunctionFacts) (nodes : List Node) : Walk :=
  match head.name with
  | none => w
  | some name =>
    if head.isImplicit then w
    else
      let kind : DeclarationKind :=
        if role = .free || !inRecord ancestors then .function else .method
      let type := facts.type.getD ""
      let (returnType, qualifiers) := (FunctionType.split? type).getD (type, "")
      let d := declare input ancestors kind head name
      let w := w.push input head {
        declaration := d
        ancestors := ancestors
        spelling := some returnType
        visibility := w.memberVisibility ancestors head
        flags := {
          isVirtual := facts.isVirtual
          isPure := facts.isPure
          isStatic := facts.storageClass = some "static"
          isConst := (words qualifiers.toList).contains "const".toList
          isCtor := role = .constructor } }
      w.within .invalid (·.parameters input (ancestors ++ [d]) nodes)

/-- An alias, which is a name but no member of the stream. -/
def typeAlias (w : Walk) (input : String) (ancestors : List Declaration) (head : Head)
    (target : Option String) : Walk :=
  match head.name, target with
  | some name, some target =>
    if head.isImplicit then w
    else
      let d := declare input ancestors .unsupported head name
      w.name (·.insert d.qualifiedName (.typeAlias d target (scopesOf ancestors)))
  | _, _ => w

/-- An enum, which is a name but no member of the stream. -/
def enumeration (w : Walk) (input : String) (ancestors : List Declaration) (head : Head) :
    Walk :=
  match head.name with
  | some name =>
    if head.isImplicit then w
    else
      let d := declare input ancestors .unsupported head name
      w.name (·.insert d.qualifiedName (.enumeration d))
  | none => w

/-- The bases of a record, named as they are written until all names are known. -/
def bases (w : Walk) (input : String) (ancestors : List Declaration) (head : Head)
    (access : Visibility) (bs : List Base) : Walk :=
  bs.foldl (fun w b =>
    match b.spelling with
    | none => w
    | some spelling =>
      w.push input head {
        declaration := {
          kind := .baseSpecifier
          qualifiedName := spelling
          identifier := spelling
          location := place input head.location }
        ancestors := ancestors
        spelling := some spelling
        visibility := (b.access.map Visibility.ofAccess).getD access
        flags := {} }) w

/-- The kind of a record by its tag; a union is none. -/
def recordKind? : Option String → Option DeclarationKind
  | some "class" => some .classDecl
  | some "struct" | none => some .structDecl
  | some _ => none

/-- The access in force at the beginning of a record. -/
def initialAccess (kind : DeclarationKind) : Visibility :=
  if kind = .classDecl then .privateAccess else .publicAccess

/-- A record: its names, itself, its bases, and what `members` makes of its members. -/
def record (w : Walk) (input : String) (ancestors : List Declaration) (head : Head)
    (facts : RecordFacts) (name : String) (members : List Declaration → Walk → Walk) :
    Walk :=
  match recordKind? facts.tag with
  | none => w
  | some kind =>
    let d := declare input ancestors kind head name
    let w := w.name fun names =>
      if facts.isDefinition then names.define d.qualifiedName d
      else names.insert d.qualifiedName (.record d)
    let w := w.push input head {
      declaration := d
      ancestors := ancestors
      spelling := none
      visibility := w.memberVisibility ancestors head
      flags := {} }
    let inside := ancestors ++ [d]
    let access := initialAccess kind
    w.within access fun w =>
      members inside (w.bases input inside head access facts.bases)

/-- A namespace with what `members` makes of what is inside it. -/
def enterNamespace (w : Walk) (input : String) (ancestors : List Declaration) (head : Head)
    (members : List Declaration → Walk → Walk) : Walk :=
  let name := head.name.getD Shape.anonymousNamespace
  let d := declare input ancestors .namespaceDecl head name
  let w := w.push input head ⟨d, ancestors, none, .invalid, {}⟩
  w.within .invalid (members (ancestors ++ [d]))

end Walk

/--
The name of a template with its arguments in angle brackets. There is none if an argument
has no spelling or there are no arguments.
-/
def specializationName? (name : String) (nodes : List Node) : Option String := do
  let arguments ← (nodes.filterMap fun n =>
    match n.payload with
    | .templateArgument spelling => some spelling
    | _ => none).mapM id
  if arguments.isEmpty then none
  else return name ++ "<" ++ joinWith ", " arguments ++ ">"

/-! ## The walk -/

mutual

/-- Walks a node that stands inside nested declarations. -/
def walk (input : String) (ancestors : List Declaration) : Node → Walk → Walk
  | .mk payload nodes, w =>
    match payload with
    | .namespaceDecl head =>
      w.enterNamespace input ancestors head fun inside w => walkAll input inside nodes w
    | .record head facts =>
      match head.name with
      | some name =>
        if head.isImplicit then w
        else w.record input ancestors head facts name
          fun inside w => walkAll input inside nodes w
      | none => w
    | .specialization head facts =>
      match head.name.bind (specializationName? · nodes) with
      | some name =>
        w.record input ancestors head facts name
          fun inside w => walkAll input inside nodes w
      | none => w
    | .field head type => w.value input ancestors .field head type
    | .function role head facts => w.function input ancestors role head facts nodes
    | .typeAlias head target => w.typeAlias input ancestors head target
    | .enumeration head => w.enumeration input ancestors head
    | .accessSpecifier access =>
      if inRecord ancestors then
        { w with access := (access.map Visibility.ofAccess).getD .invalid }
      else w
    | .parameter .. | .templateArgument _ => w
    | .other => walkAll input ancestors nodes w

/-- Walks nodes one after another. -/
def walkAll (input : String) (ancestors : List Declaration) : List Node → Walk → Walk
  | [], w => w
  | n :: rest, w => walkAll input ancestors rest (walk input ancestors n w)

end

/-- The stream and the names of a syntax tree. -/
def Walk.ofTree (input : String) (root : Node) : Walk := walk input [] root {}

end DeclAtlas.Dump
