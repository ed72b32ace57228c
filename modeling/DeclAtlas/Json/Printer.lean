import DeclAtlas.Json.Value

/-!
# Writing JSON

Two forms: one line without blanks, and an indented form with two spaces for each level,
one member or item a line, and a space after the colon. Strings are escaped where JSON asks
for it and nowhere else: `"`, `\` and the controls below U+0020, which have a letter or
four hexadecimal digits. An empty array or object is written without a line break.

A writer adds to the text written so far, so that long values need no stack.
-/

namespace DeclAtlas.Json

/-- A hexadecimal digit, in lower case. -/
def hexDigit (n : Nat) : Char := if n < 10 then Char.ofNat (48 + n) else Char.ofNat (87 + n)

/-- A character inside a JSON string. -/
def escapeChar (c : Char) : List Char :=
  if c = '"' then ['\\', '"']
  else if c = '\\' then ['\\', '\\']
  else if c = '\n' then ['\\', 'n']
  else if c = '\r' then ['\\', 'r']
  else if c = '\t' then ['\\', 't']
  else if c = '\x08' then ['\\', 'b']
  else if c = '\x0c' then ['\\', 'f']
  else if c.toNat < 0x20 then
    ['\\', 'u', '0', '0', hexDigit (c.toNat / 16), hexDigit (c.toNat % 16)]
  else [c]

/-- A JSON string that spells a text. -/
def quote (s : String) : String :=
  String.ofList ('"' :: s.toList.flatMap escapeChar ++ ['"'])

/-- A string as it is written; one without a text, which no writer makes, is empty. -/
def quote? (s : Option String) : String := quote (s.getD "")

namespace Value

mutual

/-- Writes a value on one line. -/
def writeLine (out : String) : Value → String
  | null => out ++ "null"
  | bool b => out ++ (if b then "true" else "false")
  | number lexeme => out ++ lexeme
  | string s => out ++ quote? s
  | array items => (writeItemsLine true (out.push '[') items).push ']'
  | object members => (writeMembersLine true (out.push '\x7b') members).push '\x7d'

/-- Writes items on one line, with a comma before each but the first. -/
def writeItemsLine (first : Bool) (out : String) : List Value → String
  | [] => out
  | v :: rest => writeItemsLine false (writeLine (if first then out else out.push ',') v) rest

/-- Writes members on one line, with a comma before each but the first. -/
def writeMembersLine (first : Bool) (out : String) :
    List (Option String × Value) → String
  | [] => out
  | (key, v) :: rest =>
    let out := (if first then out else out.push ',') ++ quote? key
    writeMembersLine false (writeLine (out.push ':') v) rest

end

/-- A value on one line. -/
def line (v : Value) : String := v.writeLine ""

/-- Begins a line at a level of nesting. -/
def newLine (level : Nat) (out : String) : String :=
  out ++ String.ofList ('\n' :: List.replicate (2 * level) ' ')

mutual

/-- Writes a value over several lines, itself at a level of nesting. -/
def writePretty (level : Nat) (out : String) : Value → String
  | null => out ++ "null"
  | bool b => out ++ (if b then "true" else "false")
  | number lexeme => out ++ lexeme
  | string s => out ++ quote? s
  | array [] => out ++ "[]"
  | array (v :: rest) =>
    let out := writePretty (level + 1) (newLine (level + 1) (out.push '[')) v
    (newLine level (writeItemsPretty (level + 1) out rest)).push ']'
  | object [] => out ++ "\x7b\x7d"
  | object ((key, v) :: rest) =>
    let out := newLine (level + 1) (out.push '\x7b') ++ quote? key ++ ": "
    let out := writePretty (level + 1) out v
    (newLine level (writeMembersPretty (level + 1) out rest)).push '\x7d'

/-- Writes the items after the first, each on a line of its own. -/
def writeItemsPretty (level : Nat) (out : String) : List Value → String
  | [] => out
  | v :: rest =>
    writeItemsPretty level (writePretty level (newLine level (out.push ',')) v) rest

/-- Writes the members after the first, each on a line of its own. -/
def writeMembersPretty (level : Nat) (out : String) :
    List (Option String × Value) → String
  | [] => out
  | (key, v) :: rest =>
    let out := newLine level (out.push ',') ++ quote? key ++ ": "
    writeMembersPretty level (writePretty level out v) rest

end

/-- A value over several lines. -/
def pretty (v : Value) : String := v.writePretty 0 ""

example : (array [nat 1, record [("a", null)]]).pretty =
    "[\n  1,\n  \x7b\n    \"a\": null\n  \x7d\n]" := by decide

end Value

end DeclAtlas.Json
