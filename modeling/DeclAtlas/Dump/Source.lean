import DeclAtlas.Dump.Reader
import DeclAtlas.Dump.Stream
import DeclAtlas.Json.Reader
import DeclAtlas.Shape.Builtin
import DeclAtlas.Shape.Printer
import DeclAtlas.Source.Basic
import DeclAtlas.Source.Cursor

/-!
# Dumps as sources

The stream of a syntax tree, with its names answering for types. A type is read from its
spelling, its core looked up in the scopes around the declaration that uses it, and spelled
again; so every type has one spelling wherever it is used. Replacing an alias puts what it
stands for in place of the core, looked up in the scopes of the alias itself.

Questions about a declaration are answered by the entry read last if it is that one, and
else by the first entry that equals it.

## Main results

* `stripAlias_of_not_alias`: a type whose core is no alias stays as it is.
-/

namespace DeclAtlas.Dump

/-- A stream with the names of its source file. -/
structure Source where
  /-- What the source file is called. -/
  input : String
  cursor : Cursor StreamEntry := {}
  names : NameTable := {}
deriving Inhabited

/-! ## From a tree -/

/-- A base under the name it refers to; other declarations as they are. -/
def nameBase (names : NameTable) (e : StreamEntry) : StreamEntry :=
  if e.declaration.kind = .baseSpecifier then
    let written := e.spelling.getD ""
    let name := (Shape.parse written).named?.getD written
    let qualified := (names.resolve? name e.scope).getD name
    { e with
      declaration := { e.declaration with
        qualifiedName := qualified
        identifier := Text.lastSegment qualified } }
  else e

namespace Source

/-- The source of a syntax tree. -/
def ofTree (input : String) (root : Node) : Source :=
  let w := Walk.ofTree input root
  ⟨input, .ofArray (w.entries.map (nameBase w.names)), w.names⟩

/-- The source of a dump, given as a JSON value. -/
def ofJson? (input : String) (v : Json.Value) : Option Source :=
  (Node.ofJson? v).map (ofTree input)

/-- The source of a dump, given as text. -/
def ofText? (input : String) (dump : String) : Option Source :=
  (Json.parse? dump).bind (ofJson? input)

/-! ## Types -/

/-- A core under the name it refers to from inside some scopes. -/
def qualify (names : NameTable) (scope : List String) (s : Shape) : Shape :=
  s.mapNamed fun name isConst =>
    let name :=
      if (Builtin.kind? name).isSome then name else (names.resolve? name scope).getD name
    .named name isConst

/-- The kind of a name. -/
def namedKind (names : NameTable) (name : String) : TypeKind :=
  match Builtin.kind? name with
  | some kind => kind
  | none =>
    match names.get? name with
    | some (.record _) => .struct
    | some (.enumeration _) => .enum
    | some (.typeAlias ..) => .typedef
    | none => .unhandled

/-- A shape as a type in use. -/
def toDeclared (names : NameTable) (s : Shape) : DeclaredType where
  identifier := s.render
  isConst := s.isConst
  kind :=
    match s with
    | .named name _ => namedKind names name
    | s => s.kind
  dimensions := s.dimensions

/-- What an alias stands for, looked up in its own scopes. -/
def aliasTarget? (names : NameTable) (name : String) : Option Shape :=
  match names.get? name with
  | some (.typeAlias _ target scope) => some (qualify names scope (Shape.parse target))
  | _ => none

/-- A shape with its core replaced by what it stands for, if it is an alias. -/
def substituteAlias (names : NameTable) (s : Shape) : Shape :=
  s.mapNamed fun name isConst =>
    match aliasTarget? names name with
    | some target => target.withConst isConst
    | none => .named name isConst

/-- A type with one alias replaced by what it stands for. -/
def stripAlias (names : NameTable) (t : DeclaredType) : DeclaredType :=
  let shape := Shape.parse t.identifier
  if shape.named?.any fun name => (aliasTarget? names name).isSome then
    toDeclared names (substituteAlias names shape)
  else t

/-- The declaration of a type, if its spelling is that of a name. -/
def typeDeclaration (names : NameTable) (t : DeclaredType) : Declaration :=
  match Shape.parse t.identifier with
  | .named name _ => ((names.get? name).map (·.declaration)).getD {}
  | _ => {}

/-- What a pointer or reference leads to, or an array holds. -/
def elementType (names : NameTable) (t : DeclaredType) : DeclaredType :=
  ((Shape.parse t.identifier).inner?.map (toDeclared names)).getD {}

/-- The type that an entry was declared with. -/
def declaredTypeOf (names : NameTable) (e : StreamEntry) : DeclaredType :=
  match e.spelling with
  | some spelling =>
    if spelling = "" then {}
    else toDeclared names (qualify names e.scope (Shape.parse spelling))
  | none => {}

/-! ## Entries -/

/-- The declarations in order. -/
def declarations (s : Source) : List Declaration := s.cursor.toList.map (·.declaration)

/-- The same source read from the start. -/
def rewind (s : Source) : Source := { s with cursor := s.cursor.rewind }

/-- The entry of a declaration. -/
def entry? (s : Source) (d : Declaration) : Option StreamEntry :=
  (s.cursor.current?.filter (·.declaration = d)).or
    (s.cursor.toList.find? (·.declaration = d))

instance : DeclarationSource Source where
  next s :=
    let (e, cursor) := s.cursor.next
    ((e.map (·.declaration)).getD {}, { s with cursor })
  ancestors s := (s.cursor.current?.map (·.ancestors)).getD []
  typeDeclaration s := typeDeclaration s.names
  stripAlias s := stripAlias s.names
  element s := elementType s.names
  isConst _ t := t.isConst || (Shape.parse t.identifier).isConst
  visibility s d := ((s.entry? d).map (·.visibility)).getD .invalid
  declaredType s d := ((s.entry? d).map (declaredTypeOf s.names)).getD {}
  methodFlags s d := ((s.entry? d).map (·.flags)).getD {}

/--
How far a survey of this source can have to go: past every entry, and below a type through
every layer that is written anywhere. Where aliases lead round in a circle a layer can come
again, so each is counted several times. Aliases that add layers for ever have no bound.
-/
def reach (s : Source) : Nat :=
  let written := fun (t : Option String) => (t.getD "").length + 1
  let aliases := s.names.names.foldl (fun n p =>
    match p.2 with
    | .typeAlias _ target _ => n + written (some target)
    | _ => n) 0
  let types := s.cursor.toList.foldl (fun n e => max n (written e.spelling)) 0
  s.cursor.size + 4 * (aliases + types + 8)

/-! ## Small lemmas -/

/-- A type whose core is no alias stays as it is. -/
theorem stripAlias_of_not_alias {names : NameTable} {t : DeclaredType}
    (h : ∀ n, (Shape.parse t.identifier).named? = some n → aliasTarget? names n = none) :
    stripAlias names t = t := by
  unfold stripAlias
  cases hn : (Shape.parse t.identifier).named? with
  | none => simp [hn]
  | some n => simp [hn, h n hn]

end Source

end DeclAtlas.Dump
