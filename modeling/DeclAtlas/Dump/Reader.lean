import DeclAtlas.Dump.Node
import DeclAtlas.Json.Access
import DeclAtlas.Json.Number
import DeclAtlas.Text.Digit
import DeclAtlas.Word

/-!
# Reading a syntax tree

A dump is one JSON value. Of each node only the members its kind is known to have are read;
all others are passed over, whatever they hold. What is read has to be as expected, or the
whole dump is refused:

* before its kind a node may have an identifier and nothing else; a node without a kind is
  of no known kind;
* a known member may occur once, in a node as in the objects under it; only the list of inner
  nodes, and what follows the offset in a location, may be given again, and the last counts;
* what is read may be nested 127 levels deep, must spell text where it is a string, and
  must be the value of a double where it is a number.

The compiler leaves the file and the line of a location out where they are those of the
location before it. So reading carries them along, in the order of the text, through every
location that is read, also where the location itself is of no use.

Reading goes down one level of the budget at a time, so the budget is its fuel as well.
-/

namespace DeclAtlas.Dump

open Json (Value)
open Json.Value (text? bool? nullable?)

/-! ## Reading with a place carried along -/

/-- The file and line given last. -/
structure Carry where
  file : String := ""
  line : Nat := 0
deriving DecidableEq, Inhabited

/-- What is read may be refused and may move the place on. -/
abbrev Reader := StateT Carry Option

/-- Refuses what is read. -/
def refuse {α : Type} : Reader α := StateT.lift none

/-- A result that needs no place. -/
def ofOption {α : Type} (o : Option α) : Reader α := StateT.lift o

/-- How deep the values that are read may be nested. -/
def depthLimit : Nat := 127

/-! ## Simple values -/

/-- An unsigned word. -/
def word? : Value → Option Nat
  | .number lexeme => Json.readWord? lexeme
  | _ => none

mutual

/-- May this value be read at all, with `budget` levels left? -/
def isReadable : (budget : Nat) → Value → Bool
  | _, .null | _, .bool _ => true
  | _, .number lexeme => (Json.Number.read? lexeme).isSome
  | _, .string s => s.isSome
  | 0, .array _ | 0, .object _ => false
  | budget + 1, .array items => areReadable budget items
  | budget + 1, .object members => areMembersReadable budget members

/-- May all these values be read? -/
def areReadable : (budget : Nat) → List Value → Bool
  | _, [] => true
  | budget, v :: rest => isReadable budget v && areReadable budget rest

/-- May all these members be read? -/
def areMembersReadable : (budget : Nat) → List (Option String × Value) → Bool
  | _, [] => true
  | budget, (key, v) :: rest =>
    key.isSome && isReadable budget v && areMembersReadable budget rest

end

/-- Are the keys text, and is none of `known` given twice? -/
def areProper (known : List String) (members : List (Option String × Value)) : Bool :=
  members.all (·.1.isSome) &&
  known.all fun key => (members.filter fun m => m.1 = some key).length ≤ 1

/-! ## Locations -/

/-- A location as far as it has been read. -/
structure PartialLocation where
  file : Option String := none
  line : Option Nat := none
  column : Option Nat := none
  tokenLength : Option Nat := none

/-- The file that another one was included from; only its form matters. -/
def isInclusion (members : List (Option String × Value)) : Bool :=
  areProper ["file", "includedFrom"] members &&
  members.all (fun (key, v) => match key with
    | some "file" => (text? v).isSome
    | some "includedFrom" => true
    | _ => false) &&
  members.any fun (key, _) => key = some "file"

/-- Reads one member of a location after its offset; `budget` levels are left. -/
def readLocationMember (budget : Nat) (l : PartialLocation) :
    Option String × Value → Option PartialLocation
  | (some "file", v) => (text? v).map fun s => { l with file := some s }
  | (some "line", v) => (word? v).map fun n => { l with line := some n }
  | (some "presumedFile", v) => (text? v).map fun _ => l
  | (some "presumedLine", v) => (word? v).map fun _ => l
  | (some "col", v) => (word? v).map fun n => { l with column := some n }
  | (some "tokLen", v) => (word? v).map fun n => { l with tokenLength := some n }
  | (some "includedFrom", .object members) =>
    if 0 < budget ∧ isInclusion members then some l else none
  | (some "isMacroArgExpansion", v) => (bool? v).map fun _ => l
  | _ => none

/-- Reads a single location, which starts with its offset. -/
def readBareLocation (budget : Nat) :
    List (Option String × Value) → Reader Location
  | (some "offset", offset) :: members => do
    let _ ← ofOption (word? offset)
    let l ← ofOption (members.foldlM (readLocationMember budget) {})
    let column ← ofOption l.column
    let _ ← ofOption l.tokenLength
    let carry ← get
    let file := l.file.getD carry.file
    let line := l.line.getD carry.line
    set (Carry.mk file line)
    return ⟨file, line, column⟩
  | _ => refuse

/--
Reads a location: none at all, a single one, or that of a macro, which is where the macro
was written and where it was used; the latter counts.
-/
def readLocation : (budget : Nat) → Value → Reader (Option Location)
  | _ + 1, .object [] => return none
  | budget + 2, .object
      [(some "spellingLoc", .object spelling), (some "expansionLoc", .object expansion)] => do
    let _ ← readBareLocation budget spelling
    some <$> readBareLocation budget expansion
  | budget + 1, .object members => some <$> readBareLocation budget members
  | _, _ => refuse

/-- Reads a location that may be null. -/
def readOptionalLocation (budget : Nat) : Value → Reader (Option Location)
  | .null => return none
  | v => readLocation budget v

/--
Reads a range, of which only the places it passes matter: its beginning and its end, in
either order.
-/
def readOptionalRange : (budget : Nat) → Value → Reader Unit
  | _, .null => return ()
  | budget + 1, .object [(some one, v), (some other, w)] => do
    if (one, other) = ("begin", "end") ∨ (one, other) = ("end", "begin") then
      let _ ← readLocation budget v
      let _ ← readLocation budget w
    else refuse
  | _, _ => refuse

/-! ## Types and bases -/

/-- The member with a key. -/
def find? (key : String) (members : List (Option String × Value)) : Option Value :=
  (members.find? fun m => m.1 = some key).map (·.2)

/-- A member that may be null or absent. -/
def findNullable? {α : Type} (read : Value → Option α) (key : String)
    (members : List (Option String × Value)) : Option (Option α) :=
  match find? key members with
  | none => some none
  | some v => nullable? read v

/-- The spelling of a type, which may have none; its fields may be given by position. -/
def qualifiedType? : (budget : Nat) → Value → Option (Option String)
  | _ + 1, .object members =>
    if areProper ["qualType"] members then findNullable? text? "qualType" members else none
  | _ + 1, .array [spelling] => nullable? text? spelling
  | _, _ => none

/-- A base of a record; its fields may be given by position. -/
def base? : (budget : Nat) → Value → Option Base
  | budget + 1, .object members => do
    if areProper ["access", "type"] members then
      let access ← findNullable? text? "access" members
      let spelling ← (find? "type" members).bind (qualifiedType? budget)
      return ⟨access, spelling⟩
    else none
  | budget + 1, .array [access, type] => do
    let access ← nullable? text? access
    let spelling ← qualifiedType? budget type
    return ⟨access, spelling⟩
  | _, _ => none

/-- The bases of a record. -/
def bases? : (budget : Nat) → Value → Option (List Base)
  | budget + 1, .array items => items.mapM (base? budget)
  | _, _ => none

/-- The spelling of a template argument that is no type. -/
def argumentText? : Value → Option String
  | .string s => s
  | .number lexeme => (Json.Number.read? lexeme).map Json.Number.text
  | .bool b => some (if b then "true" else "false")
  | _ => none

/-! ## Nodes -/

/-- Everything that any known member of a node can say. -/
structure Attributes where
  /-- The members read so far. -/
  seen : List String := []
  head : Head := {}
  record : RecordFacts := {}
  type : Option String := none
  storageClass : Option String := none
  isVirtual : Bool := false
  isPure : Bool := false
  value : Option String := none

/-- What a kind of node declares, by its members. -/
inductive Form where
  | named (payload : Head → Payload)
  | record (payload : Head → RecordFacts → Payload)
  | valued (payload : Head → Option String → Payload)
  | function (role : FunctionRole)
  | templateArgument
  | accessSpecifier
  | other

/-- What a kind of node declares. -/
def Form.ofKind (kind : String) : Form :=
  match kind with
  | "NamespaceDecl" => named .namespaceDecl
  | "EnumDecl" => named .enumeration
  | "CXXRecordDecl" | "RecordDecl" => record .record
  | "ClassTemplateSpecializationDecl" | "ClassTemplatePartialSpecializationDecl" =>
    record .specialization
  | "TemplateArgument" => templateArgument
  | "FieldDecl" => valued .field
  | "ParmVarDecl" => valued .parameter
  | "TypedefDecl" | "TypeAliasDecl" => valued .typeAlias
  | "CXXMethodDecl" | "CXXDestructorDecl" | "CXXConversionDecl" => function .member
  | "CXXConstructorDecl" => function .constructor
  | "FunctionDecl" => function .free
  | "AccessSpecDecl" => accessSpecifier
  | _ => other

/-- The members that are read beside the inner nodes. -/
def Form.known : Form → List String
  | named _ => ["name", "loc", "isImplicit", "access"]
  | record _ =>
    ["name", "loc", "isImplicit", "access", "tagUsed", "completeDefinition", "bases"]
  | valued _ => ["name", "loc", "isImplicit", "access", "type"]
  | function _ =>
    ["name", "loc", "isImplicit", "access", "type", "storageClass", "virtual", "pure"]
  | templateArgument => ["type", "value", "range"]
  | accessSpecifier => ["access", "loc"]
  | other => ["loc", "range"]

/-- What a node declares, once its members are read. -/
def Form.payload (a : Attributes) : Form → Payload
  | named p => p a.head
  | record p => p a.head a.record
  | valued p => p a.head a.type
  | function role => .function role a.head ⟨a.type, a.storageClass, a.isVirtual, a.isPure⟩
  | templateArgument => .templateArgument (a.type.or a.value)
  | accessSpecifier => .accessSpecifier a.head.access
  | other => .other

/-- Reads a known member; `budget` levels are left. -/
def readKnown (budget : Nat) (a : Attributes) (key : String) (v : Value) :
    Reader Attributes := do
  if a.seen.contains key then refuse
  else
    let a := { a with seen := key :: a.seen }
    let text := ofOption (nullable? text? v)
    let flag := (·.getD false) <$> ofOption (nullable? bool? v)
    match key with
    | "name" =>
      let name ← text
      return { a with head := { a.head with name := name.filter (· ≠ "") } }
    | "loc" =>
      let location ← readOptionalLocation budget v
      return { a with head := { a.head with location } }
    | "range" => readOptionalRange budget v; return a
    | "isImplicit" => let b ← flag; return { a with head := { a.head with isImplicit := b } }
    | "access" => let access ← text; return { a with head := { a.head with access } }
    | "tagUsed" => let tag ← text; return { a with record := { a.record with tag } }
    | "completeDefinition" =>
      let b ← flag
      return { a with record := { a.record with isDefinition := b } }
    | "bases" =>
      let bases ← ofOption (bases? budget v)
      return { a with record := { a.record with bases } }
    | "type" =>
      let type ← ofOption (nullable? (qualifiedType? budget) v)
      return { a with type := type.bind id }
    | "value" =>
      if isReadable budget v then return { a with value := argumentText? v } else refuse
    | "storageClass" => let storageClass ← text; return { a with storageClass }
    | "virtual" => let b ← flag; return { a with isVirtual := b }
    | "pure" => let b ← flag; return { a with isPure := b }
    | _ => return a

/-- Is this a node identifier: `0x` and a word in hexadecimal digits? -/
def isIdentifier (s : String) : Bool :=
  match s.toList with
  | '0' :: 'x' :: cs =>
    let digits := match cs with
      | '+' :: rest => rest
      | cs => cs
    (Text.number? 16 digits).any (· ≤ Word.maxUnsigned 64)
  | _ => false

/--
The kind of a node, and the members after it: an identifier may come before the kind, and
nothing else; a node may end without a kind.
-/
def kindOf? (members : List (Option String × Value)) :
    Option (Form × List (Option String × Value)) :=
  let afterIdentifier := match members with
    | (some "id", v) :: rest => if (text? v).any isIdentifier then some rest else none
    | members => some members
  match afterIdentifier with
  | some [] => some (.other, [])
  | some ((some "kind", v) :: rest) => (text? v).map fun kind => (.ofKind kind, rest)
  | _ => none

/-- Reads one member of a node after its kind; `inner` reads a list of inner nodes. -/
def readMember (form : Form) (budget : Nat) (inner : Value → Reader (List Node))
    (read : Attributes × List Node) : Option String × Value → Reader (Attributes × List Node)
  | (none, _) => refuse
  | (some "inner", v) => (read.1, ·) <$> inner v
  | (some key, v) =>
    if form.known.contains key then (·, read.2) <$> readKnown budget read.1 key v
    else return read

/-- Reads the members of a node; `budget` levels are left inside it. -/
def readMembers (budget : Nat) (inner : Value → Reader (List Node))
    (members : List (Option String × Value)) : Reader Node := do
  let (form, members) ← ofOption (kindOf? members)
  let (a, nodes) ← members.foldlM (readMember form budget inner) ({}, [])
  return .mk (form.payload a) nodes

/-- Reads a node; `budget` levels are left. -/
def readNode : (budget : Nat) → Value → Reader Node
  | 1, .object members => readMembers 0 (fun _ => refuse) members
  | budget + 2, .object members =>
    let inner : Value → Reader (List Node)
      | .array items => items.mapM (readNode budget)
      | _ => refuse
    readMembers (budget + 1) inner members
  | _, _ => refuse

/-- The syntax tree of a dump. -/
def Node.ofJson? (v : Value) : Option Node := ((readNode depthLimit v).run {}).map (·.1)

end DeclAtlas.Dump
