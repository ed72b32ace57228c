import DeclAtlas.CommandLine.Run

/-!
# The command line

The program on the machine at hand. It looks at real files, and writes what a run reports.
It starts no other program: a syntax tree has to be printed beforehand, and a run that asks
for the compiler ends as one whose compiler did not start.
-/

namespace DeclAtlas.Machine

/-- Where a path leads from the working directory. -/
def locate (path : String) := (· / path) <$> IO.currentDir

/-- Why an operation on a file failed. -/
def fileError (e : IO.Error) : FileError :=
  match e with
  | .noFileOrDirectory .. => .notFound
  | .inappropriateType _ code _ =>
    if code = 21 then .isADirectory else .notADirectory
  | e => .other (toString e)

/-- Does something with a path that is not empty. -/
def attempt {α : Type} (path : String) (action : IO α) : IO (Except FileError α) := do
  if path = "" then return .error .notFound
  match ← action.toBaseIO with
  | .ok a => return .ok a
  | .error e => return .error (fileError e)

/-- Is this a file (not a directory)? -/
def isFile (path : String) : IO Bool := do
  let p ← locate path
  return path ≠ "" && (← p.pathExists) && !(← p.isDir)

def isDirectory (path : String) : IO Bool := do
  return path ≠ "" && (← (← locate path).isDir)

/-- The names in a directory, in their order. -/
def names (path : String) : IO (List String) := do
  let entries ← attempt path do (← locate path).readDir
  match entries with
  | .ok entries => return (entries.toList.map (·.fileName)).mergeSort
  | .error _ => return []

instance : Host IO where
  isFile := isFile
  isDirectory := isDirectory
  names := names
  read path := attempt path do return (← IO.FS.readBinFile path).toList
  write path content := attempt path (IO.FS.writeBinFile path ⟨content.toArray⟩)
  touch path := attempt path do let _ ← IO.FS.Handle.mk path .append
  makeDirectory path := attempt path (IO.FS.createDirAll path)
  run _ _ := return .error (.other "programs cannot be started")

end DeclAtlas.Machine

/-- Runs the program and reports how it ended. -/
def main (arguments : List String) : IO UInt32 := do
  let report ← DeclAtlas.CommandLine.run arguments
  (← IO.getStdout).putStr report.output
  (← IO.getStderr).putStr report.complaint
  return report.status.toUInt32
