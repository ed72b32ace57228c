import DeclAtlas.FileTree
import DeclAtlas.Text.Utf8

/-!
# Hosts

What the program needs of the machine it runs on: a look at its files, and the output of a
command. Everything that depends on a machine is written over any host; one host is a value,
with a file tree and an answer for every command.
-/

namespace DeclAtlas

/-- What a command left behind. -/
structure CommandOutput where
  /-- How it ended; without a status it was killed. -/
  status : Option Int := some 0
  stdout : List UInt8 := []
  stderr : List UInt8 := []
deriving DecidableEq, Inhabited

/-- A machine with files and commands. -/
class Host (m : Type → Type) where
  isFile : String → m Bool
  isDirectory : String → m Bool
  /-- The names in a directory, in the order of their bytes. -/
  names : String → m (List String)
  read : String → m (Except FileError (List UInt8))
  write : String → List UInt8 → m (Except FileError Unit)
  /-- Makes sure that there is a file, to add to it. -/
  touch : String → m (Except FileError Unit)
  /-- Makes a directory and those above it. -/
  makeDirectory : String → m (Except FileError Unit)
  /-- Runs a command with arguments. -/
  run : String → List String → m (Except FileError CommandOutput)

namespace Host

variable {m : Type → Type} [Monad m] [Host m]

/-- The text of a file. -/
def readText (path : String) : m (Except FileError String) := do
  match ← read path with
  | .ok content =>
    match Text.Utf8.decode? content with
    | some text => return .ok text
    | none => return .error .invalidText
  | .error e => return .error e

/-- Makes a file of a text. -/
def writeText (path : String) (text : String) : m (Except FileError Unit) :=
  write path (Text.Utf8.encode text)

/-- Makes sure that there is a file, and makes the directory it stands in if need be. -/
def touchBelow (path : String) : m (Except FileError Unit) := do
  match ← touch path with
  | .ok _ => return .ok ()
  | .error e =>
    match Path.parent? path with
    | none => return .error e
    | some directory =>
      match ← makeDirectory directory with
      | .ok _ => touch path
      | .error e => return .error e

end Host

/-- A host that is a value. -/
structure SimulatedHost where
  files : FileSystem := {}
  commands : String → List String → Except FileError CommandOutput :=
    fun _ _ => .error .notFound

namespace SimulatedHost

/-- The host after a change of its files. -/
def update (change : FileSystem → Except FileError FileSystem) :
    StateM SimulatedHost (Except FileError Unit) := do
  let host ← get
  match change host.files with
  | .ok files =>
    set { host with files }
    return .ok ()
  | .error e => return .error e

instance : Host (StateM SimulatedHost) where
  isFile path := return (← get).files.isFile path
  isDirectory path := return (← get).files.isDirectory path
  names path := return (← get).files.names path
  read path := return (← get).files.read path
  write path content := update (·.write path content)
  touch path := update (·.touch path)
  makeDirectory path := update (·.makeDirectory path)
  run command arguments := return (← get).commands command arguments

end SimulatedHost

end DeclAtlas
