import DeclAtlas.Declaration.Basic

/-!
# Syntax trees

What is kept of a compiler's syntax tree: for each node what it declares, as far as a
stream of declarations needs it, and the nodes inside it. A node of any other kind is kept
for the nodes inside it.

A location without a file belongs to the file that is being dumped; absent is the location
of a node that the compiler made up.
-/

namespace DeclAtlas.Dump

/-- What all declarations have in common. -/
structure Head where
  /-- The declared name; an empty one counts as none. -/
  name : Option String := none
  location : Option Location := none
  /-- Did the compiler add the declaration by itself? -/
  isImplicit : Bool := false
  /-- The access written for this very declaration. -/
  access : Option String := none
deriving DecidableEq, Inhabited

/-- A base of a record as it is written. -/
structure Base where
  access : Option String := none
  spelling : Option String := none
deriving DecidableEq, Inhabited

/-- What a record adds to its head. -/
structure RecordFacts where
  /-- The word it was declared with. -/
  tag : Option String := none
  isDefinition : Bool := false
  bases : List Base := []
deriving DecidableEq, Inhabited

/-- How a function stands to a record. -/
inductive FunctionRole where
  /-- Written as a member, though it may stand outside every record. -/
  | member
  | constructor
  | free
deriving DecidableEq, Inhabited

/-- What a function adds to its head. -/
structure FunctionFacts where
  type : Option String := none
  storageClass : Option String := none
  isVirtual : Bool := false
  isPure : Bool := false
deriving DecidableEq, Inhabited

/-- What a node declares. -/
inductive Payload where
  | namespaceDecl (head : Head)
  | record (head : Head) (facts : RecordFacts)
  /-- A class template with arguments in place of its parameters. -/
  | specialization (head : Head) (facts : RecordFacts)
  /-- A template argument by its spelling, if it has one. -/
  | templateArgument (spelling : Option String)
  | field (head : Head) (type : Option String)
  | function (role : FunctionRole) (head : Head) (facts : FunctionFacts)
  | parameter (head : Head) (type : Option String)
  | typeAlias (head : Head) (target : Option String)
  | enumeration (head : Head)
  /-- The access of the members that follow. -/
  | accessSpecifier (access : Option String)
  | other
deriving DecidableEq, Inhabited

/-- A node with the nodes inside it. -/
inductive Node where
  | mk (payload : Payload) (inner : List Node)

namespace Node

instance : Inhabited Node := ⟨mk .other []⟩

/-- What the node declares. -/
def payload : Node → Payload
  | mk p _ => p

/-- The nodes directly inside. -/
def inner : Node → List Node
  | mk _ ns => ns

@[simp] theorem payload_mk (p : Payload) (ns : List Node) : (mk p ns).payload = p := rfl

@[simp] theorem inner_mk (p : Payload) (ns : List Node) : (mk p ns).inner = ns := rfl

end Node

end DeclAtlas.Dump
