import DeclAtlas.Dump.Source
import DeclAtlas.Host
import DeclAtlas.Settings.Basic
import DeclAtlas.Snapshot
import DeclAtlas.Survey.Build

/-!
# The compiler's front end

A source file is surveyed through the syntax tree that a compiler prints of it. The
compiler may fail and still have printed a tree; only what it printed decides. A tree may
also have been printed beforehand and stand in a file.
-/

namespace DeclAtlas.Frontend

/-- The arguments for a syntax tree, in front of those of the settings. -/
def treeArguments : List String :=
  ["-Xclang", "-ast-dump=json", "-fsyntax-only", "-fno-color-diagnostics"]

/-- The arguments for the syntax tree of a file; a header is C++ if the standard is. -/
def arguments (path : String) (s : CompilerSettings) : List String :=
  let language :=
    if Path.isHeader path && Text.startsWith "c++" s.standard then ["-x", "c++-header"] else []
  treeArguments ++ language ++ s.arguments ++ [path]

/-- The syntax tree that a command has printed. -/
def treeOf (path command : String) :
    Except FileError CommandOutput → Except SourceError String
  | .error .notFound => .error (.commandNotFound command)
  | .error e => .error (.launchFailed command e)
  | .ok output =>
    let text := Text.Utf8.decodeLossy output.stdout
    if (Text.trimStart text.toList).head? = some '\x7b' then .ok text
    else .error (.compileFailed path output.status (Text.Utf8.decodeLossy output.stderr))

/-- The declarations of a dump. -/
def sourceOf (input text : String) : Except SourceError Dump.Source :=
  match Dump.Source.ofText? input text with
  | some source => .ok source
  | none => .error (.invalidDump input "not a syntax tree")

/-- What is written of the declarations of a dump. -/
def snapshotOf (options : SurveyOptions) (source : Dump.Source) :
    Except SourceError Snapshot :=
  match Survey.build (.standard options) source.reach source with
  | some (atlas, _) => .ok (.ofAtlas source.input atlas)
  | none => .error (.endlessTypes source.input)

variable {m : Type → Type} [Monad m] [Host m]

/-- The syntax tree of a file, by the compiler. -/
def printTree (s : CompilerSettings) (path : String) : m (Except SourceError String) := do
  return treeOf path s.command (← Host.run s.command (arguments path s))

/-- The syntax tree in a file. -/
def readTree (path : String) : m (Except SourceError String) := do
  match ← Host.readText path with
  | .ok text => return .ok text
  | .error e => return .error (.readFailed path e)

/-- The declarations of a file, by the compiler. -/
def load (s : CompilerSettings) (path : String) : m (Except SourceError Dump.Source) := do
  return (← printTree s path).bind (sourceOf path)

/-- What is written of a file. -/
def survey (s : Settings) (path : String) : m (Except SourceError Snapshot) := do
  return (← load s.compiler path).bind (snapshotOf s.survey)

/-- What is written of a syntax tree in a file, which was printed of `input`. -/
def surveyTree (s : Settings) (dump input : String) : m (Except SourceError Snapshot) := do
  return ((← readTree dump).bind (sourceOf input)).bind (snapshotOf s.survey)

end DeclAtlas.Frontend
