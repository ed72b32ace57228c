import DeclAtlas.Toml.Scalar
import DeclAtlas.Toml.Table
import DeclAtlas.Toml.Text

/-!
# Reading TOML

A document is a list of lines: assignments, headers, comments and blank lines. A key is made
of segments, bare or quoted, with dots between them. Arrays may go over several lines and
end in a comma, tables between braces may not.

A key has fewer than eighty segments, and arrays and braces are nested less than eighty
deep. Reading a value takes at most two calls for each character, so twice the length of
the text is enough fuel.
-/

namespace DeclAtlas.Toml

/-! ## Blanks and comments -/

/--
Without the blanks, line breaks and comments at the front; `inComment` tells whether the
text begins inside a comment. A comment may hold only what a string may.
-/
def dropTrivia (inComment : Bool) : List Char → Option (List Char)
  | [] => some []
  | '\n' :: rest => dropTrivia false rest
  | '\r' :: '\n' :: rest => dropTrivia false rest
  | c :: rest =>
    if inComment then if isTextChar c then dropTrivia true rest else none
    else if isSpace c then dropTrivia false rest
    else if c = '#' then dropTrivia true rest
    else some (c :: rest)

/-- What follows a line of which nothing but blanks and a comment may be left. -/
def endLine (cs : List Char) : Option (List Char) :=
  match dropSpaces cs with
  | [] => some []
  | '#' :: rest => dropTrivia true rest
  | rest => (lineBreak? rest).bind (dropTrivia false)

/-! ## Keys -/

/-- The greatest number of segments, and the greatest number of levels. -/
def depthLimit : Nat := 79

/-- The characters of a key without quotes. -/
def isBareChar (c : Char) : Bool := Text.isDigit 36 c || c == '-' || c == '_'

/-- Reads one segment of a key. -/
def takeSegment (cs : List Char) : Option (String × List Char) :=
  match cs with
  | '"' :: rest => takeLine '"' [] rest
  | '\'' :: rest => takeLine '\'' [] rest
  | cs =>
    let bare := cs.takeWhile isBareChar
    if bare.isEmpty then none else some (String.ofList bare, cs.dropWhile isBareChar)

/-- Reads a key of at most `limit` segments: the segments before the last, and the last. -/
def takeKey : (limit : Nat) → List Char → Option ((List String × String) × List Char)
  | 0, _ => none
  | limit + 1, cs => do
    let (first, rest) ← takeSegment (dropSpaces cs)
    match dropSpaces rest with
    | '.' :: rest =>
      let ((path, key), rest) ← takeKey limit rest
      return ((first :: path, key), rest)
    | rest => return (([], first), rest)

/-! ## Values -/

mutual

/-- Reads a value that is nested `depth` deep. -/
def takeValue : (fuel : Nat) → (depth : Nat) → List Char → Option (Value × List Char)
  | 0, _, _ => none
  | fuel + 1, depth, cs =>
    match cs with
    | '[' :: rest =>
      if depth < depthLimit then
        (dropTrivia false rest).bind (takeItems fuel (depth + 1) [])
      else none
    | '\x7b' :: rest =>
      if depth < depthLimit then
        match dropSpaces rest with
        | '\x7d' :: rest => some (.table .braces [], rest)
        | rest => takeMembers fuel (depth + 1) [] rest
      else none
    | '"' :: rest => (takeString '"' rest).map fun (s, rest) => (.string s, rest)
    | '\'' :: rest => (takeString '\'' rest).map fun (s, rest) => (.string s, rest)
    | cs => readScalar cs

/-- Reads the further items of an array; `done` holds those read, last one first. -/
def takeItems : (fuel : Nat) → (depth : Nat) → (done : List Value) → List Char →
    Option (Value × List Char)
  | 0, _, _, _ => none
  | fuel + 1, depth, done, cs =>
    match cs with
    | ']' :: rest => some (.array done.reverse, rest)
    | cs => do
      let (v, rest) ← takeValue fuel depth cs
      match ← dropTrivia false rest with
      | ',' :: rest => takeItems fuel depth (v :: done) (← dropTrivia false rest)
      | ']' :: rest => return (.array (v :: done).reverse, rest)
      | _ => none

/-- Reads the further members of a table between braces. -/
def takeMembers : (fuel : Nat) → (depth : Nat) → Entries → List Char →
    Option (Value × List Char)
  | 0, _, _, _ => none
  | fuel + 1, depth, entries, cs => do
    let ((path, key), rest) ← takeKey depthLimit cs
    match rest with
    | '=' :: rest =>
      let (v, rest) ← takeValue fuel depth (dropSpaces rest)
      let entries ← entries.insert? .bracesDotted path key v
      match dropSpaces rest with
      | ',' :: rest => takeMembers fuel depth entries rest
      | '\x7d' :: rest => return (.table .braces entries, rest)
      | _ => none
    | _ => none

end

/-! ## Documents -/

/-- Reads an assignment and the rest of its line. -/
def takeAssignment (cs : List Char) : Option (Assignment × List Char) := do
  let ((path, key), rest) ← takeKey depthLimit cs
  match rest with
  | '=' :: rest =>
    let (v, rest) ← takeValue (2 * rest.length + 2) 0 (dropSpaces rest)
    return (⟨path, key, v⟩, ← endLine rest)
  | _ => none

/-- Reads assignments up to a header or the end; `done` holds those read, last one first. -/
def takeAssignments : (fuel : Nat) → (done : List Assignment) → List Char →
    Option (List Assignment × List Char)
  | fuel, done, cs =>
    match cs with
    | [] | '[' :: _ => some (done.reverse, cs)
    | cs =>
      match fuel with
      | 0 => none
      | fuel + 1 => do
        let (a, rest) ← takeAssignment cs
        takeAssignments fuel (a :: done) rest

/-- Reads a header and the rest of its line: the path, the key, and is it in double brackets? -/
def takeHeader (cs : List Char) : Option ((List String × String × Bool) × List Char) :=
  match cs with
  | '[' :: '[' :: rest => do
    let ((path, key), rest) ← takeKey depthLimit rest
    match rest with
    | ']' :: ']' :: rest => return ((path, key, true), ← endLine rest)
    | _ => none
  | '[' :: rest => do
    let ((path, key), rest) ← takeKey depthLimit rest
    match rest with
    | ']' :: rest => return ((path, key, false), ← endLine rest)
    | _ => none
  | _ => none

/-- Reads sections up to the end; `done` holds those read, last one first. -/
def takeSections : (fuel : Nat) → (done : List Section) → List Char → Option (List Section)
  | _, done, [] => some done.reverse
  | 0, _, _ :: _ => none
  | fuel + 1, done, cs => do
    let ((path, key, isItem), rest) ← takeHeader cs
    let (assignments, rest) ← takeAssignments rest.length [] rest
    takeSections fuel (⟨path, key, isItem, assignments⟩ :: done) rest

/-- The document that a text spells; a byte order mark in front is passed over. -/
def Document.ofText? (text : String) : Option Document := do
  let cs := match text.toList with
    | '\uFEFF' :: rest => rest
    | cs => cs
  let cs ← dropTrivia false cs
  let (preamble, rest) ← takeAssignments cs.length [] cs
  let sections ← takeSections rest.length [] rest
  return ⟨preamble, sections⟩

/-- The table that a text describes. -/
def Entries.ofText? (text : String) : Option Entries :=
  (Document.ofText? text).bind Document.entries?

end DeclAtlas.Toml
