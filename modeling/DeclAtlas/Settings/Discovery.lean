import DeclAtlas.Host
import DeclAtlas.Settings.Document

/-!
# Finding settings

Settings stand in a file of a fixed name. The one that counts for an input is the nearest:
in the directory of the input, or in the first directory above it that has one.
-/

namespace DeclAtlas.Settings

variable {m : Type → Type} [Monad m] [Host m]

/-- The name of a settings file. -/
def fileName : String := "declmap.toml"

/-- The first path that leads to a file. -/
def firstFile? : List String → m (Option String)
  | [] => return none
  | path :: rest => do
    if ← Host.isFile path then return some path else firstFile? rest

/-- The settings file that counts for a file or directory. -/
def find? (start : String) : m (Option String) := do
  let directory := if ← Host.isFile start then Path.parent? start else some start
  match directory with
  | some directory => firstFile? ((Path.chain directory).map (Path.child · fileName))
  | none => return none

/-- The settings in a file. -/
def load (path : String) : m (Except SettingsError Settings) := do
  match ← Host.readText path with
  | .error e => return .error (.read path e)
  | .ok text =>
    match ofText? text with
    | some settings => return .ok settings
    | none => return .error (.parse path "not a settings document")

/-- The settings that count for a file or directory, and where they stand. -/
def discover (start : String) : m (Except SettingsError (Settings × Option String)) := do
  match ← find? start with
  | none => return .ok ({}, none)
  | some path => return (← load path).map (·, some path)

end DeclAtlas.Settings
