import DeclAtlas.Text.Segment

/-!
# Paths

A path is text, cut into segments by slashes. Empty segments and single dots say nothing,
except for a dot that is the whole of the first segment of a relative path: such a path is
told from one without it. Nothing is looked up, so a double dot stays where it is.
-/

namespace DeclAtlas.Path

/-! ## Segments -/

/-- The segments of a text; `segment` holds the characters of the one being read, last one first. -/
def segmentsFrom (segment : List Char) : List Char → List (List Char)
  | [] => [segment.reverse]
  | c :: cs =>
    if c = '/' then segment.reverse :: segmentsFrom [] cs else segmentsFrom (c :: segment) cs

/-- What stands between the slashes of a text; there is always at least one segment. -/
def segments (cs : List Char) : List (List Char) := segmentsFrom [] cs

/-- A text put together of segments. -/
def join : List (List Char) → List Char
  | [] => []
  | [s] => s
  | s :: t :: rest => s ++ '/' :: join (t :: rest)

/-- Does a segment say nothing? -/
def isVoid (segment : List Char) : Bool := segment = [] || segment = ['.']

/-- How a path begins, and the rest. -/
inductive Start where
  /-- With a slash: from the root. -/
  | root
  /-- With a dot as its first segment. -/
  | here
  /-- With anything else. -/
  | plain
deriving DecidableEq

/-- How a path begins, and what stands after that. -/
def start : List Char → Start × List Char
  | '/' :: rest => (.root, rest)
  | ['.'] => (.here, [])
  | '.' :: '/' :: rest => (.here, '/' :: rest)
  | cs => (.plain, cs)

/-- How a beginning is written. -/
def Start.text : Start → List Char
  | root => ['/']
  | here => ['.']
  | plain => []

/-! ## Parts of a path -/

/-- The segments after the beginning, last one first, from the last one that says something. -/
def significant (rest : List Char) : List (List Char) :=
  (segments rest).reverse.dropWhile isVoid

/-- The last segment that says something, unless it is a double dot. -/
def fileName? (path : String) : Option String :=
  match significant (start path.toList).2 with
  | name :: _ => if name = ['.', '.'] then none else some (String.ofList name)
  | [] => none

/-- What stands after the last dot of the file name, if something stands before it. -/
def extension? (path : String) : Option String :=
  (fileName? path).bind fun name =>
    let reversed := name.toList.reverse
    let tail := reversed.takeWhile (· ≠ '.')
    match reversed.dropWhile (· ≠ '.') with
    | _ :: _ :: _ => some (String.ofList tail.reverse)
    | _ => none

/-- The path that is left without the last segment; none above the root and the empty path. -/
def parent? (path : String) : Option String :=
  let (start, rest) := start path.toList
  match significant rest with
  | _ :: above =>
    some (String.ofList (start.text ++ join (above.dropWhile isVoid).reverse))
  | [] => if start = .here then some "" else none

/-- A path, and what stands above it, in at most `steps` steps. -/
def chainOf : (steps : Nat) → String → List String
  | 0, path => [path]
  | steps + 1, path =>
    match parent? path with
    | some above => path :: chainOf steps above
    | none => [path]

/-- A path and everything above it; each step upwards makes it shorter. -/
def chain (path : String) : List String := chainOf path.length path

/-- A name below a directory. -/
def child (directory name : String) : String :=
  if directory = "" ∨ Text.endsWith "/" directory then directory ++ name
  else directory ++ "/" ++ name

/-! ## Extensions of source files -/

/-- An ASCII letter in lower case; other characters as they are. -/
def lowerCase (c : Char) : Char :=
  if 'A' ≤ c ∧ c ≤ 'Z' then Char.ofNat (c.toNat + 32) else c

/-- Is the extension one of some, whatever the case of its ASCII letters? -/
def hasExtension (extensions : List String) (path : String) : Bool :=
  (extension? path).any fun e => extensions.contains (String.ofList (e.toList.map lowerCase))

/-- The extensions of headers. -/
def headerExtensions : List String := ["h", "hh", "hpp", "hxx"]

/-- The extensions of what can be surveyed. -/
def inputExtensions : List String := headerExtensions ++ ["c", "cc", "cpp", "cxx"]

/-- Is this a header, by its name? -/
def isHeader (path : String) : Bool := hasExtension headerExtensions path

/-- Can this be surveyed, by its name? -/
def isInput (path : String) : Bool := hasExtension inputExtensions path

end DeclAtlas.Path
