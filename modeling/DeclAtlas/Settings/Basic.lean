import DeclAtlas.Survey.Rules
import DeclAtlas.Text.Blank
import DeclAtlas.Text.Segment

/-!
# Settings

What a user can choose: how the compiler is called, how far the survey goes, and how much is
logged. Settings can be brought into their normal form, in which texts are trimmed, empty
items are dropped, and numbers lie within their bounds.

## Main results

* `LogLevel.ofLabel?_label`: a level is known by its label.
-/

namespace DeclAtlas

/-- How much is logged. -/
inductive LogLevel where
  | error | warn | info | debug | trace
deriving DecidableEq, Inhabited

namespace LogLevel

/-- How a level is written. -/
def label : LogLevel → String
  | error => "error"
  | warn => "warn"
  | info => "info"
  | debug => "debug"
  | trace => "trace"

/-- Every level, from the quietest. -/
def all : List LogLevel := [error, warn, info, debug, trace]

/-- The level with a label. -/
def ofLabel? (s : String) : Option LogLevel := all.find? (·.label = s)

/-- What a log is told to let through: messages of this program up to the level. -/
def directive (level : LogLevel) : String := "declmap=" ++ level.label

theorem ofLabel?_label (level : LogLevel) : ofLabel? level.label = some level := by
  cases level <;> decide

end LogLevel

/-- How the compiler is called. -/
structure CompilerSettings where
  /-- The command. -/
  command : String := "clang"
  includePaths : List String := []
  extraFlags : List String := []
  /-- The language standard; without one the compiler takes its own. -/
  standard : String := "c++17"
deriving DecidableEq, Inhabited

namespace CompilerSettings

/-- Trimmed texts, without those that are empty then. -/
def trimAll (texts : List String) : List String := (texts.map Text.trim).filter (· ≠ "")

/-- The settings with every text trimmed; an empty command is the usual one. -/
def normalize (s : CompilerSettings) : CompilerSettings :=
  let command := Text.trim s.command
  { command := if command = "" then ({} : CompilerSettings).command else command
    includePaths := trimAll s.includePaths
    extraFlags := trimAll s.extraFlags
    standard := Text.trim s.standard }

/-- The arguments that the settings call for, in front of the input. -/
def arguments (s : CompilerSettings) : List String :=
  (if s.standard = "" then [] else ["-std=" ++ s.standard]) ++
    s.includePaths.map ("-I" ++ ·) ++ s.extraFlags

end CompilerSettings

/-- Everything a user can choose. -/
structure Settings where
  compiler : CompilerSettings := {}
  survey : SurveyOptions := {}
  logLevel : LogLevel := .info
deriving DecidableEq, Inhabited

/-- The settings in their normal form. -/
def Settings.normalize (s : Settings) : Settings :=
  { s with compiler := s.compiler.normalize, survey := s.survey.normalize }

/-- What is chosen for one run, beside the settings that were found. -/
structure Overrides where
  /-- Further include paths. -/
  includePaths : List String := []
  command : Option String := none
  maxAliasDepth : Option Nat := none
  /-- Are methods asked for? -/
  modelMethods : Bool := false
deriving DecidableEq, Inhabited

/-- The settings for one run, before they are brought into their normal form. -/
def Settings.override (s : Settings) (o : Overrides) : Settings :=
  { s with
    compiler := { s.compiler with
      includePaths := s.compiler.includePaths ++ o.includePaths
      command := o.command.getD s.compiler.command }
    survey :=
      { maxAliasDepth := o.maxAliasDepth.getD s.survey.maxAliasDepth
        modelMethods := s.survey.modelMethods || o.modelMethods } }

end DeclAtlas
