import DeclAtlas.Source.Basic
import DeclAtlas.Source.Cursor
import DeclAtlas.Text.Segment
import DeclAtlas.Word

/-!
# Scripts

A source that is written down step by step: declarations are recorded in stream order,
opening one nests those that follow in it until it is closed, and what there is to know
about a type is defined for its spelling. Recording may go on while the script is read.

Nothing is looked up twice: a question about a declaration is answered by the first entry
that equals it.
-/

namespace DeclAtlas

/-- What is known about the types of one spelling. -/
structure TypeFacts where
  declaration : Option Declaration := none
  /-- What the alias stands for; absent for a type that is no alias. -/
  target : Option DeclaredType := none
  element : Option DeclaredType := none
  isConst : Bool := false
deriving DecidableEq, Inhabited

/-- A recorded declaration with what is known about it. -/
structure ScriptEntry where
  declaration : Declaration
  /-- The declarations it is nested in, outermost first. -/
  ancestors : List Declaration := []
  declaredType : DeclaredType := {}
  visibility : Visibility := .invalid
  flags : MethodFlags := {}
deriving DecidableEq, Inhabited

/-- Declarations and type facts written down step by step. -/
structure Script where
  cursor : Cursor ScriptEntry := {}
  /-- The declarations that are open, outermost first. -/
  scope : List Declaration := []
  /-- Facts by spelling, one for each spelling. -/
  types : List (String × TypeFacts) := []

namespace Script

instance : Inhabited Script := ⟨{}⟩

/-- The file that every recorded declaration is placed in. -/
def file : String := "scripted.h"

/-- The greatest line number. -/
def maxLine : Nat := Word.maxUnsigned 32

/-! ## Recording -/

/-- The declaration that the next step would record: each has a line of its own. -/
def declare (s : Script) (kind : DeclarationKind) (name : String) : Declaration where
  kind := kind
  qualifiedName := name
  identifier := Text.lastSegment name
  location := ⟨file, min (s.cursor.size + 1) maxLine, 1⟩

/-- Records a declaration inside those that are open. -/
def leaf (s : Script) (kind : DeclarationKind) (name : String) : Script :=
  { s with cursor := s.cursor.record ⟨s.declare kind name, s.scope, {}, .invalid, {}⟩ }

/-- Records a declaration and nests what follows in it. -/
def nest (s : Script) (kind : DeclarationKind) (name : String) : Script :=
  { s.leaf kind name with scope := s.scope ++ [s.declare kind name] }

/-- Ends the innermost open declaration; nothing happens if none is open. -/
def close (s : Script) : Script := { s with scope := s.scope.dropLast }

/-- Gives the declaration recorded last a type. -/
def withType (s : Script) (t : DeclaredType) : Script :=
  { s with cursor := s.cursor.modifyLast fun e => { e with declaredType := t } }

/-- Gives the declaration recorded last a visibility. -/
def withVisibility (s : Script) (v : Visibility) : Script :=
  { s with cursor := s.cursor.modifyLast fun e => { e with visibility := v } }

/-- Gives the declaration recorded last method flags. -/
def withFlags (s : Script) (f : MethodFlags) : Script :=
  { s with cursor := s.cursor.modifyLast fun e => { e with flags := f } }

/-- Defines a spelling, in place of an earlier definition. -/
def defineType (s : Script) (spelling : String) (facts : TypeFacts) : Script :=
  { s with types := (spelling, facts) :: s.types.filter fun p => p.1 ≠ spelling }

/-! ## Asking -/

/-- The entries in recorded order. -/
def entries (s : Script) : List ScriptEntry := s.cursor.toList

/-- The first recorded declaration with a qualified name. -/
def declaration? (s : Script) (name : String) : Option Declaration :=
  (s.entries.map (·.declaration)).find? (·.qualifiedName = name)

/-- The facts defined for a spelling. -/
def facts? (s : Script) (spelling : String) : Option TypeFacts :=
  (s.types.find? fun p => p.1 = spelling).map (·.2)

/-- The first entry of a declaration. -/
def entry? (s : Script) (d : Declaration) : Option ScriptEntry :=
  s.entries.find? (·.declaration = d)

/-- The same script read from the start. -/
def rewind (s : Script) : Script := { s with cursor := s.cursor.rewind }

/-- The declaration of a type: the defined one, or the structure recorded by that name. -/
def typeDeclaration (s : Script) (t : DeclaredType) : Declaration :=
  match (s.facts? t.identifier).bind (·.declaration) with
  | some d => d
  | none =>
    ((s.entries.map (·.declaration)).find? fun d =>
      d.kind.isStructure && d.qualifiedName = t.identifier).getD {}

instance : DeclarationSource Script where
  next s :=
    let (e, cursor) := s.cursor.next
    ((e.map (·.declaration)).getD {}, { s with cursor })
  ancestors s := (s.cursor.current?.map (·.ancestors)).getD []
  typeDeclaration := typeDeclaration
  stripAlias s t := ((s.facts? t.identifier).bind (·.target)).getD t
  element s t := ((s.facts? t.identifier).bind (·.element)).getD {}
  isConst s t := t.isConst || ((s.facts? t.identifier).any (·.isConst))
  visibility s d := ((s.entry? d).map (·.visibility)).getD .invalid
  declaredType s d := ((s.entry? d).map (·.declaredType)).getD {}
  methodFlags s d := ((s.entry? d).map (·.flags)).getD {}

/--
How far a survey of this script can have to go: past every entry, and below a type no
deeper than there are types that an alias or a layer can lead to.
-/
def reach (s : Script) : Nat := s.cursor.size + 2 * s.types.length + 4

/-! ## Small lemmas -/

@[simp] theorem entries_leaf (s : Script) (k : DeclarationKind) (n : String) :
    (s.leaf k n).entries = s.entries ++ [⟨s.declare k n, s.scope, {}, .invalid, {}⟩] := by
  simp [leaf, entries, Cursor.record, Cursor.toList]

@[simp] theorem entries_nest (s : Script) (k : DeclarationKind) (n : String) :
    (s.nest k n).entries = (s.leaf k n).entries := rfl

end Script

end DeclAtlas
