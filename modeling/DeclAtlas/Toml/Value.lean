/-!
# TOML values

A TOML value, with tables in the order in which their keys were first given. A table
remembers how it came about, because that decides what a later line may still add to it;
numbers with a fraction, dates and times are kept as they were written.
-/

namespace DeclAtlas.Toml

/-- How a table came about. -/
inductive Origin where
  /-- Written between braces. -/
  | braces
  /-- Through a dotted key between braces. -/
  | bracesDotted
  /-- Through its own header. -/
  | header
  /-- Through the header of a table inside it. -/
  | implied
  /-- Through a dotted key. -/
  | dotted
deriving DecidableEq, Inhabited

/-- A TOML value. -/
inductive Value where
  | string (text : String)
  | integer (n : Int)
  | float (lexeme : String)
  | boolean (b : Bool)
  /-- A date, a time of day, or both. -/
  | moment (lexeme : String)
  | array (items : List Value)
  | table (origin : Origin) (entries : List (String × Value))
  /-- Tables that were given one after the other under the same header. -/
  | tables (items : List Value)

/-- The contents of a table. -/
abbrev Entries := List (String × Value)

namespace Value

instance : Inhabited Value := ⟨boolean false⟩

/-- Is this a table or an array without contents? -/
def isEmpty : Value → Bool
  | array [] | table _ [] => true
  | _ => false

/-- The text of a string. -/
def string? : Value → Option String
  | string s => some s
  | _ => none

/-- A truth value. -/
def boolean? : Value → Option Bool
  | boolean b => some b
  | _ => none

/-- An integer that is not negative. -/
def nat? : Value → Option Nat
  | integer n => if 0 ≤ n then some n.toNat else none
  | _ => none

/-- An array of texts. -/
def strings? : Value → Option (List String)
  | array items => items.mapM string?
  | _ => none

end Value

end DeclAtlas.Toml
