import DeclAtlas.Text.Blank

/-!
# Failures

Why no model came about: the front end could not be run or gave no syntax tree, a file
could not be read, or what was read was not in order. Every failure has one wording, and
some have a cause of their own, which is worded where it arose.
-/

namespace DeclAtlas

/-- Why something could not be done with a file. -/
inductive FileError where
  | notFound
  | notADirectory
  | isADirectory
  /-- A name, or the whole path, has too many bytes. -/
  | nameTooLong
  /-- The path holds the character that ends names. -/
  | nulInName
  /-- The content is not text. -/
  | invalidText
  /-- Any other cause, worded elsewhere. -/
  | other (wording : String)
deriving DecidableEq, Inhabited

/-- The wording of a file error. -/
def FileError.message : FileError → String
  | notFound => "No such file or directory (os error 2)"
  | notADirectory => "Not a directory (os error 20)"
  | isADirectory => "Is a directory (os error 21)"
  | nameTooLong => "File name too long (os error 36)"
  | nulInName => "file name contained an unexpected NUL byte"
  | invalidText => "stream did not contain valid UTF-8"
  | other wording => wording

/-- Why a source file has no declarations to offer. -/
inductive SourceError where
  /-- There is no such front end. -/
  | commandNotFound (command : String)
  | launchFailed (command : String) (cause : FileError)
  /-- The front end printed no syntax tree; without a status it was killed. -/
  | compileFailed (path : String) (status : Option Int) (stderr : String)
  /-- The dump is not the syntax tree that is expected. -/
  | invalidDump (path : String) (wording : String)
  | readFailed (path : String) (cause : FileError)
  /-- An alias leads to ever greater types. -/
  | endlessTypes (path : String)
deriving DecidableEq, Inhabited

namespace SourceError

/-- How a front end ended. -/
def statusText : Option Int → String
  | some code => toString code
  | none => "signal"

/-- The wording of a failure. -/
def message : SourceError → String
  | commandNotFound command => "clang executable not found: " ++ command
  | launchFailed command cause => "failed to launch " ++ command ++ ": " ++ cause.message
  | compileFailed path status stderr =>
    "clang failed on " ++ path ++ " (exit " ++ statusText status ++ "): " ++ Text.trim stderr
  | invalidDump path wording => "invalid AST JSON for " ++ path ++ ": " ++ wording
  | readFailed path cause => "failed to read " ++ path ++ ": " ++ cause.message
  | endlessTypes path => "types of " ++ path ++ " have no end"

/-- The wording of the cause, if the failure has one of its own. -/
def cause? : SourceError → Option String
  | launchFailed _ cause | readFailed _ cause => some cause.message
  | invalidDump _ wording => some wording
  | commandNotFound _ | compileFailed .. | endlessTypes _ => none

end SourceError

/-- Why there are no settings. -/
inductive SettingsError where
  | read (path : String) (cause : FileError)
  | parse (path : String) (wording : String)
deriving DecidableEq, Inhabited

namespace SettingsError

/-- The wording of a failure. -/
def message : SettingsError → String
  | read path cause => "cannot read " ++ path ++ ": " ++ cause.message
  | parse path wording => "invalid " ++ path ++ ": " ++ wording

/-- The wording of the cause. -/
def cause? : SettingsError → Option String
  | read _ cause => some cause.message
  | parse _ wording => some wording

end SettingsError

end DeclAtlas
