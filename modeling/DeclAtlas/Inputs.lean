import DeclAtlas.Host

/-!
# Inputs

Inputs are given as files and directories. A file is an input whatever its name; a directory
stands for the source files in it and below it, in the order of their names, each directory
in its place among them.
-/

namespace DeclAtlas.Inputs

variable {m : Type → Type} [Monad m] [Host m]

/-- No path is long enough for deeper directories. -/
def maxDepth : Nat := FileSystem.maxPathSize / 2

/-- The source files in a directory and at most `depth` levels below it. -/
def below : (depth : Nat) → String → m (List String)
  | 0, _ => return []
  | depth + 1, directory => do
    let names ← Host.names directory
    let files ← names.mapM fun name => do
      let path := Path.child directory name
      if ← Host.isDirectory path then below depth path
      else if ← Host.isFile path then return if Path.isInput path then [path] else []
      else return []
    return files.flatten

/-- The files that one input stands for. -/
def expand (input : String) : m (List String) := do
  if ← Host.isDirectory input then below maxDepth input else return [input]

/-- The files that inputs stand for, in their order. -/
def collect (inputs : List String) : m (List String) := do
  return (← inputs.mapM expand).flatten

end DeclAtlas.Inputs
