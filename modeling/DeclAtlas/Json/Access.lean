import DeclAtlas.Json.Value

/-!
# Looking into JSON values

What a reader expects of a value: a text, a truth value, a whole number, a list. A member
that may be left out may also be given as null.
-/

namespace DeclAtlas.Json.Value

/-- A string that spells text. -/
def text? : Value → Option String
  | string s => s
  | _ => none

/-- A truth value. -/
def bool? : Value → Option Bool
  | bool b => some b
  | _ => none

/-- A whole number. -/
def int? : Value → Option Int
  | number lexeme => lexeme.toInt?
  | _ => none

/-- A whole number that is not negative. -/
def nat? (v : Value) : Option Nat :=
  v.int?.bind fun n => if 0 ≤ n then some n.toNat else none

/-- The items of an array. -/
def items? : Value → Option (List Value)
  | array items => some items
  | _ => none

/-- An array of texts. -/
def texts? (v : Value) : Option (List String) := v.items?.bind (·.mapM text?)

/-- A value that may be null. -/
def nullable? {α : Type} (read : Value → Option α) : Value → Option (Option α)
  | null => some none
  | v => (read v).map some

/-- The first member with a name; null if there is none. -/
def member (v : Value) (name : String) : Value := (v.member? name).getD null

/-- A member, with a usual value where it is null or left out. -/
def memberOr? {α : Type} (read : Value → Option α) (usual : α) (v : Value) (name : String) :
    Option α :=
  (nullable? read (v.member name)).map (·.getD usual)

/-- An object with further members at its end; other values as they are. -/
def withMembers (v : Value) (more : List (String × Value)) : Value :=
  match v with
  | object members => object (members ++ more.map fun p => (some p.1, p.2))
  | v => v

end DeclAtlas.Json.Value
