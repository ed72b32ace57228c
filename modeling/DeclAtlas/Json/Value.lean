/-!
# JSON values

A JSON value as it was written: members keep their order and their repetitions, numbers
keep their digits. A string whose escapes leave half a surrogate pair is well-formed JSON
but spells no text; it is kept as a string without a text, for only a reader who wants the
text has to refuse it.
-/

namespace DeclAtlas.Json

/-- A JSON value as it was written. -/
inductive Value where
  | null
  | bool (b : Bool)
  /-- A number by its digits. -/
  | number (lexeme : String)
  /-- A string; no text if its escapes spell none. -/
  | string (text : Option String)
  | array (items : List Value)
  | object (members : List (Option String × Value))

namespace Value

instance : Inhabited Value := ⟨null⟩

/-- A string with a text. -/
def text (s : String) : Value := string (some s)

/-- A number. -/
def nat (n : Nat) : Value := number (toString n)

/-- A number with a sign. -/
def int (n : Int) : Value := number (toString n)

/-- A value, or null for none. -/
def orNull : Option Value → Value
  | some v => v
  | none => null

/-- An object with the given members. -/
def record (members : List (String × Value)) : Value :=
  object (members.map fun p => (some p.1, p.2))

/-- The first member with a name. -/
def member? (name : String) : Value → Option Value
  | object members => (members.find? fun p => p.1 = some name).map (·.2)
  | _ => none

end Value

end DeclAtlas.Json
