import DeclAtlas.CommandLine.Options
import DeclAtlas.Frontend
import DeclAtlas.Inputs
import DeclAtlas.Settings.Discovery

/-!
# Running the program

The settings are found first, then the log is opened, then everything is surveyed, and only
when all of it is done is anything written. The first failure ends the run.
-/

namespace DeclAtlas.CommandLine

/-- How a run ended. -/
structure Report where
  /-- Zero if all went well. -/
  status : Nat := 0
  /-- What goes to the standard output. -/
  output : String := ""
  /-- What goes to the standard error. -/
  complaint : String := ""
deriving DecidableEq, Inhabited

namespace Report

/-- The end of a run whose arguments were not in order. -/
def usage : Report :=
  { status := 2, complaint := "usage: " ++ programName ++ " [OPTIONS] [INPUTS]...\n" }

/-- The end of a run that failed. -/
def failure (message : String) : Report :=
  { status := 1, complaint := programName ++ ": " ++ message ++ "\n" }

/-- The end of a run without its log. -/
def noLog (e : FileError) : Report :=
  { status := 101, complaint := programName ++ ": cannot open the log: " ++ e.message ++ "\n" }

end Report

namespace Options

/-- What the options say in place of the settings. -/
def overrides (o : Options) : Overrides where
  includePaths := o.includePaths
  command := o.command
  maxAliasDepth := o.maxAliasDepth
  modelMethods := o.modelMethods

/-- Where the search for settings begins. -/
def searchStart (o : Options) : String := (o.inputs.head?.or o.tree).getD "."

/-- The path of the log file; a path that names none gets the usual name. -/
def logPath? (o : Options) : Option String :=
  o.logFile.map fun path =>
    Path.child ((Path.parent? path).getD ".") ((Path.fileName? path).getD "declmap.log")

variable {m : Type → Type} [Monad m] [Host m]

/-- The settings that the options lead to. -/
def settings (o : Options) : m (Except SettingsError Settings) := do
  let found ← match o.config with
    | some path => Settings.load path
    | none => (·.map (·.1)) <$> Settings.discover o.searchStart
  return found.map fun s => (s.override o.overrides).normalize

/-- Surveys files one after the other, up to the first failure. -/
def surveyAll (s : Settings) : List String → m (Except SourceError (List Snapshot))
  | [] => return .ok []
  | path :: rest => do
    match ← Frontend.survey s path with
    | .error e => return .error e
    | .ok snapshot => return (← surveyAll s rest).map (snapshot :: ·)

/-- Surveys what the options name. -/
def snapshots (o : Options) (s : Settings) : m (Except SourceError (List Snapshot)) := do
  match o.tree with
  | some tree => return (← Frontend.surveyTree s tree (o.inputs.head?.getD tree)).map ([·])
  | none => surveyAll s (← Inputs.collect o.inputs)

/-- Writes the result where the options say. -/
def deliver (o : Options) (text : String) : m Report := do
  match o.output with
  | none => return { output := text }
  | some path =>
    match ← Host.writeText path text with
    | .ok _ => return {}
    | .error e => return .failure e.message

/-- Opens the log, if there is to be one. -/
def openLog (o : Options) : m (Except FileError Unit) :=
  match o.logPath? with
  | some path => Host.touchBelow path
  | none => return .ok ()

/-- Does what the options ask for. -/
def run (o : Options) : m Report := do
  match ← o.settings with
  | .error e => return .failure e.message
  | .ok settings =>
    match ← o.openLog with
    | .error e => return .noLog e
    | .ok _ =>
      match ← o.snapshots settings with
      | .error e => return .failure e.message
      | .ok snapshots => o.deliver (Snapshot.prettyAll snapshots ++ "\n")

end Options

variable {m : Type → Type} [Monad m] [Host m]

/-- Runs the program. -/
def run (arguments : List String) : m Report := do
  match parse? arguments with
  | none => return .usage
  | some .help => return { output := helpText }
  | some .version => return { output := versionText }
  | some (.run options) => options.run

end DeclAtlas.CommandLine
