import DeclAtlas.Settings.Basic
import DeclAtlas.Toml.Reader

/-!
# Settings as a document

Settings are read from a TOML document with the tables `compiler`, `mapper` and `logging`.
What is not given keeps its usual value, unknown keys are passed over, and a known key must
have a value of its type. A moment in time counts as a table without entries; under an
unknown key, a table that is marked as a moment has to be one.

A level is a string, or a table whose only key is the level and whose value there is empty;
of a table under a header only the first key counts.
-/

namespace DeclAtlas

open Toml (Entries Origin)

namespace Settings

/-- A value of a type, or the usual one where none is given. -/
def choose? {α : Type} (read : Toml.Value → Option α) (usual : α) :
    Option Toml.Value → Option α
  | none => some usual
  | some v => read v

/-- The entries of a table. -/
def table? : Toml.Value → Option Entries
  | .table _ entries => some entries
  | .moment _ => some []
  | _ => none

/-- A log level. -/
def level? : Toml.Value → Option LogLevel
  | .string s => LogLevel.ofLabel? s
  | .table origin ((key, v) :: rest) =>
    let isInline := origin = .braces ∨ origin = .bracesDotted
    if (isInline ∧ rest ≠ []) ∨ !v.isEmpty then none else LogLevel.ofLabel? key
  | _ => none

/-- The entries, if those with unknown keys may be passed over. -/
def admit? (known : List String) (entries : Entries) : Option Entries :=
  if entries.all fun (key, v) => known.contains key || v.keepsMarks then some entries else none

/-- The table with a name, of which some keys are known; one that is not given has no entries. -/
def tableAt? (name : String) (known : List String) (entries : Entries) : Option Entries :=
  (choose? table? [] (entries.find? name)).bind (admit? known)

/-- The settings that a table of entries describes. -/
def ofEntries? (entries : Entries) : Option Settings := do
  let usual : Settings := {}
  let entries ← admit? ["compiler", "mapper", "logging"] entries
  let compiler ← tableAt? "compiler" ["clang", "include_paths", "extra_flags", "std"] entries
  let survey ← tableAt? "mapper" ["max_alias_depth", "model_methods"] entries
  let logging ← tableAt? "logging" ["level"] entries
  let text (key : String) := fun usual => choose? (·.string?) usual (compiler.find? key)
  let texts (key : String) := fun usual => choose? (·.strings?) usual (compiler.find? key)
  return {
    compiler := {
      command := ← text "clang" usual.compiler.command
      includePaths := ← texts "include_paths" usual.compiler.includePaths
      extraFlags := ← texts "extra_flags" usual.compiler.extraFlags
      standard := ← text "std" usual.compiler.standard }
    survey := {
      maxAliasDepth :=
        ← choose? (·.nat?) usual.survey.maxAliasDepth (survey.find? "max_alias_depth")
      modelMethods :=
        ← choose? (·.boolean?) usual.survey.modelMethods (survey.find? "model_methods") }
    logLevel := ← choose? level? usual.logLevel (logging.find? "level") }

/-- The settings that a document describes, in their normal form. -/
def ofText? (text : String) : Option Settings :=
  ((Entries.ofText? text).bind ofEntries?).map normalize

end Settings

end DeclAtlas
