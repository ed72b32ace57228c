import DeclAtlas.Failure
import DeclAtlas.Path

/-!
# File trees

Files and directories as a value. A directory holds its entries in the order of their
names, which is the order of their bytes. A path is resolved one segment after the other
from the working directory or from the root: every segment but the last has to be a
directory, a dot or an empty segment stays there, and a double dot goes up, at the root not
at all.

## Main results

* `find_enter`: what was put into a directory is found there.
-/

namespace DeclAtlas

/-- A file by its bytes, or a directory with its entries. -/
inductive FileTree where
  | file (content : List UInt8)
  | directory (entries : List (String × FileTree))

instance : Inhabited FileTree := ⟨.directory []⟩

namespace FileTree

/-- The entries of a directory; a file has none. -/
def entries : FileTree → List (String × FileTree)
  | directory es => es
  | file _ => []

def isDirectory : FileTree → Bool
  | directory _ => true
  | file _ => false

/-- Puts an entry in its place, instead of one with its name. -/
def enter (name : String) (t : FileTree) :
    List (String × FileTree) → List (String × FileTree)
  | [] => [(name, t)]
  | e :: rest =>
    if name = e.1 then (name, t) :: rest
    else if name < e.1 then (name, t) :: e :: rest
    else e :: enter name t rest

/-- The tree below some names. -/
def find? : List String → FileTree → Option FileTree
  | [], t => some t
  | name :: rest, t => (t.entries.lookup name).bind (find? rest)

/--
Puts a tree below some names. Directories on the way that are missing are made; nothing is
put where a file is in the way.
-/
def put? (t : FileTree) : List String → FileTree → Option FileTree
  | [], _ => some t
  | _ :: _, file _ => none
  | name :: rest, directory es =>
    (put? t rest ((es.lookup name).getD default)).map fun sub =>
      directory (enter name sub es)

theorem find_enter (name : String) (t : FileTree) (es : List (String × FileTree)) :
    (enter name t es).lookup name = some t := by
  induction es with
  | nil => simp [enter]
  | cons e rest ih =>
    unfold enter
    split
    · simp
    · split
      · simp
      · rename_i h _
        obtain ⟨n, u⟩ := e
        simp only [List.lookup_cons]
        rw [beq_false_of_ne h]
        exact ih

end FileTree

/-- All files, and the directory that relative paths begin at. -/
structure FileSystem where
  root : FileTree := default
  /-- The names on the way to the working directory. -/
  workingDirectory : List String := []

namespace FileSystem

/-- The greatest number of bytes in a name. -/
def maxNameSize : Nat := 255

/-- The number of bytes that a path has to stay below. -/
def maxPathSize : Nat := 4096

/-- Follows segments from a directory: the names on the way to where they lead. -/
def follow (root : FileTree) (here : List String) :
    List String → Except FileError (List String)
  | [] => .ok here
  | segment :: rest =>
    match FileTree.find? here root with
    | none => .error .notFound
    | some (.file _) => .error .notADirectory
    | some (.directory es) =>
      if segment = "" ∨ segment = "." then follow root here rest
      else if segment = ".." then follow root here.dropLast rest
      else if maxNameSize < segment.utf8ByteSize then .error .nameTooLong
      else if (es.lookup segment).isSome then follow root (here ++ [segment]) rest
      else .error .notFound

/-- The segments of a path, and the directory they begin at. -/
def segmentsOf (fs : FileSystem) (path : String) :
    Except FileError (List String × List String) :=
  if path.toList.contains '\x00' then .error .nulInName
  else if path = "" then .error .notFound
  else if maxPathSize ≤ path.utf8ByteSize then .error .nameTooLong
  else
    let here := if Text.startsWith "/" path then [] else fs.workingDirectory
    .ok (here, (Path.segments path.toList).map String.ofList)

/-- The names on the way to what a path leads to. -/
def resolve (fs : FileSystem) (path : String) : Except FileError (List String) := do
  let (here, segments) ← fs.segmentsOf path
  follow fs.root here segments

/-- What a path leads to. -/
def get (fs : FileSystem) (path : String) : Except FileError FileTree := do
  match FileTree.find? (← fs.resolve path) fs.root with
  | some t => .ok t
  | none => .error .notFound

def isFile (fs : FileSystem) (path : String) : Bool :=
  match fs.get path with
  | .ok t => !t.isDirectory
  | .error _ => false

def isDirectory (fs : FileSystem) (path : String) : Bool :=
  match fs.get path with
  | .ok t => t.isDirectory
  | .error _ => false

/-- The names in a directory, in their order. -/
def names (fs : FileSystem) (path : String) : List String :=
  match fs.get path with
  | .ok t => t.entries.map (·.1)
  | .error _ => []

/-- The bytes of a file. -/
def read (fs : FileSystem) (path : String) : Except FileError (List UInt8) := do
  match ← fs.get path with
  | .file content => .ok content
  | .directory _ => .error .isADirectory

/-- Where a file would stand that is to be written: the names on the way to it. -/
def target (fs : FileSystem) (path : String) : Except FileError (List String) := do
  let (here, segments) ← fs.segmentsOf path
  let above ← follow fs.root here segments.dropLast
  match FileTree.find? above fs.root, segments.getLast? with
  | some (.directory es), some name =>
    if name = "" ∨ name = "." ∨ name = ".." then .error .isADirectory
    else if maxNameSize < name.utf8ByteSize then .error .nameTooLong
    else if (es.lookup name).any (·.isDirectory) then .error .isADirectory
    else .ok (above ++ [name])
  | _, _ => .error .notADirectory

/-- Writes a file in a directory that exists; what the file held is lost. -/
def write (fs : FileSystem) (path : String) (content : List UInt8) :
    Except FileError FileSystem := do
  match FileTree.put? (.file content) (← fs.target path) fs.root with
  | some root => .ok { fs with root }
  | none => .error .notADirectory

/-- Makes directories for segments that lead nowhere yet, from a directory that exists. -/
def makeFrom (fs : FileSystem) (here : List String) : List String → Except FileError FileSystem
  | [] => .ok fs
  | segment :: rest =>
    match follow fs.root here [segment, ""] with
    | .ok here => makeFrom fs here rest
    | .error .notFound =>
      match FileTree.put? default (here ++ [segment]) fs.root with
      | some root => makeFrom { fs with root } (here ++ [segment]) rest
      | none => .error .notADirectory
    | .error e => .error e

/-- Makes a directory, and those above it, unless they exist. -/
def makeDirectory (fs : FileSystem) (path : String) : Except FileError FileSystem :=
  if path = "" then .ok fs
  else do
    let (here, segments) ← fs.segmentsOf path
    fs.makeFrom here segments

/-- Makes sure that there is a file, by writing an empty one where there is none. -/
def touch (fs : FileSystem) (path : String) : Except FileError FileSystem :=
  if fs.isFile path then .ok fs else fs.write path []

/-- Nothing but a working directory. -/
def ofWorkingDirectory (names : List String) : FileSystem :=
  ⟨(FileTree.put? default names default).getD default, names⟩

end FileSystem

end DeclAtlas
