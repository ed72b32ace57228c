import DeclAtlas.Text.Blank

/-!
# Function types

The spelling of a function type is its return type, the parameters in parentheses, and its
qualifiers: `double (int, float) const`. The parameters end at the last closing
parenthesis and begin where the parentheses counted back from there first balance. The
qualifiers themselves are not looked at, so those with parentheses of their own are
mistaken for parameters.
-/

namespace DeclAtlas.FunctionType

open Text

/--
Splits a reversed text at its last closing parenthesis: what follows it, reversed, and
what stands before it.
-/
def splitAtClose? : List Char → Option (List Char × List Char)
  | [] => none
  | c :: cs =>
    if c = ')' then some ([], cs)
    else (splitAtClose? cs).map fun p => (c :: p.1, p.2)

/--
What stands before the opening parenthesis that balances `depth + 1` closing ones already
met; the text is reversed.
-/
def dropParameters? (depth : Nat) : List Char → Option (List Char)
  | [] => none
  | c :: cs =>
    if c = ')' then dropParameters? (depth + 1) cs
    else if c = '(' then
      match depth with
      | 0 => some cs
      | depth + 1 => dropParameters? depth cs
    else dropParameters? depth cs

/-- Return type and qualifiers of a function type, without blanks around them. -/
def split? (spelling : String) : Option (String × String) := do
  let (after, before) ← splitAtClose? spelling.toList.reverse
  let returnType ← dropParameters? 0 before
  return (String.ofList (trimChars returnType.reverse),
    String.ofList (trimChars after.reverse))

example : split? "double (int, float) const" = some ("double", "const") := by decide

end DeclAtlas.FunctionType
