import DeclAtlas.Settings.Basic
import DeclAtlas.Text.Digit
import DeclAtlas.Word

/-!
# Command line options

An option has a long name after two dashes, and some have a letter after one. A value is
given after an equals sign or as the next argument, and to a letter also right behind it;
letters without values can share a dash. A value that is an argument of its own must not
look like an option. After two dashes alone, everything is an input.

Only include paths may be given more than once. Paths must not be empty. Arguments are read
in order, and a request for the help text or the version is answered at once.
-/

namespace DeclAtlas.CommandLine

/-- What a run is asked to do. -/
structure Options where
  /-- Files and directories. -/
  inputs : List String := []
  /-- The settings file, instead of the nearest. -/
  config : Option String := none
  includePaths : List String := []
  /-- The compiler. -/
  command : Option String := none
  /-- A syntax tree that was printed beforehand. -/
  tree : Option String := none
  /-- Where to write, instead of the standard output. -/
  output : Option String := none
  maxAliasDepth : Option Nat := none
  modelMethods : Bool := false
  verbose : Bool := false
  logFile : Option String := none
deriving DecidableEq, Inhabited

/-- What the arguments ask for. -/
inductive Request where
  | help
  | version
  | run (options : Options)
deriving DecidableEq, Inhabited

/-- An option. -/
inductive Key where
  | config | includePath | command | tree | output | maxAliasDepth | modelMethods | verbose
  | logFile | help | version
deriving DecidableEq, Inhabited

namespace Key

/-- Every option, in the order in which they are explained. -/
def all : List Key :=
  [config, includePath, command, tree, output, maxAliasDepth, modelMethods, verbose, logFile,
   help, version]

/-- The name after two dashes. -/
def name : Key → String
  | config => "config"
  | includePath => "include"
  | command => "clang"
  | tree => "ast-json"
  | output => "output"
  | maxAliasDepth => "max-alias-depth"
  | modelMethods => "model-methods"
  | verbose => "verbose"
  | logFile => "log-file"
  | help => "help"
  | version => "version"

/-- The letter after one dash. -/
def letter? : Key → Option Char
  | includePath => some 'I'
  | output => some 'o'
  | verbose => some 'v'
  | help => some 'h'
  | version => some 'V'
  | _ => none

/-- What the value of an option is called, if it takes one. -/
def valueName? : Key → Option String
  | config => some "CONFIG"
  | includePath => some "DIR"
  | command => some "CLANG"
  | tree => some "FILE"
  | output => some "OUTPUT"
  | maxAliasDepth => some "MAX_ALIAS_DEPTH"
  | logFile => some "LOG_FILE"
  | _ => none

/-- What an option is for. -/
def explanation : Key → String
  | config => "Explicit settings file instead of searching for `declmap.toml`"
  | includePath => "Extra include directory (repeatable)"
  | command => "Clang executable"
  | tree =>
    "Map a pre-generated `clang -Xclang -ast-dump=json` output instead of running clang"
  | output => "Write the JSON model here instead of stdout"
  | modelMethods => "Record methods and their parameters"
  | help => "Print help"
  | version => "Print version"
  | maxAliasDepth | verbose | logFile => ""

/-- The option with a name. -/
def ofName? (name : String) : Option Key := all.find? (·.name = name)

/-- The option with a letter. -/
def ofLetter? (c : Char) : Option Key := all.find? (·.letter? = some c)

end Key

/-! ## The help text -/

/-- The name that the program goes by. -/
def programName : String := "declmap"

/-- The version, as it is printed. -/
def versionText : String := programName ++ " 0.1.0\n"

/-- An option with its explanation, over two lines. -/
def Key.helpText (key : Key) : String :=
  let letter := match key.letter? with
    | some c => String.ofList ['-', c] ++ ", "
    | none => "    "
  let value := match key.valueName? with
    | some v => " <" ++ v ++ ">"
    | none => ""
  "  " ++ letter ++ "--" ++ key.name ++ value ++ "\n          " ++ key.explanation ++ "\n"

/-- The help text. -/
def helpText : String :=
  "Builds a cross-referenced semantic model of C/C++ structures and types " ++
    "from a declaration stream\n\n" ++
    "Usage: " ++ programName ++ " [OPTIONS] [INPUTS]...\n\n" ++
    "Arguments:\n" ++
    "  [INPUTS]...  Header or source files, or directories to scan for them\n\n" ++
    "Options:\n" ++ String.join (Key.all.map Key.helpText)

/-! ## Reading arguments -/

/-- What has been read of the arguments. -/
structure Reading where
  options : Options := {}
  /-- The options that must not be given again. -/
  given : List Key := []
deriving Inhabited

/-- A path, which must not be empty. -/
def path? (value : String) : Option String := if value = "" then none else some value

/-- An unsigned word in decimal digits; it may have a plus sign. -/
def count? (value : String) : Option Nat :=
  let digits := match value.toList with
    | '+' :: ds => ds
    | ds => ds
  (Text.number? 10 digits).filter (· ≤ Word.maxUnsigned 64)

namespace Reading

/-- Notes that an option was given, unless it was before. -/
def once? (r : Reading) (key : Key) : Option Reading :=
  if r.given.contains key then none else some { r with given := key :: r.given }

/-- One more input. -/
def input? (r : Reading) (value : String) : Option Reading :=
  (path? value).map fun p =>
    { r with options := { r.options with inputs := r.options.inputs ++ [p] } }

/-- Gives an option its value. -/
def assign? (r : Reading) (key : Key) (value : String) : Option Reading := do
  let o := r.options
  match key with
  | .includePath =>
    return { r with options := { o with includePaths := o.includePaths ++ [value] } }
  | .command => return { ← r.once? key with options := { o with command := value } }
  | .maxAliasDepth =>
    return { ← r.once? key with options := { o with maxAliasDepth := ← count? value } }
  | .config => return { ← r.once? key with options := { o with config := ← path? value } }
  | .tree => return { ← r.once? key with options := { o with tree := ← path? value } }
  | .output => return { ← r.once? key with options := { o with output := ← path? value } }
  | .logFile => return { ← r.once? key with options := { o with logFile := ← path? value } }
  | .modelMethods | .verbose | .help | .version => none

/-- Turns on an option without a value. -/
def turnOn? (r : Reading) (key : Key) : Option Reading := do
  let o := r.options
  match key with
  | .modelMethods => return { ← r.once? key with options := { o with modelMethods := true } }
  | .verbose => return { ← r.once? key with options := { o with verbose := true } }
  | _ => none

/-- What has been asked for when all arguments are read. -/
def finish? (r : Reading) : Option Request :=
  if r.options.inputs = [] ∧ r.options.tree = none then none else some (.run r.options)

end Reading

/-- What comes of an argument. -/
inductive Progress where
  | reading (r : Reading)
  /-- The next argument is the value of an option. -/
  | awaiting (key : Key) (r : Reading)
  | answer (request : Request)

/-- Reads an option without an attached value. -/
def readBare (r : Reading) (key : Key) : Option Progress :=
  match key with
  | .help => some (.answer .help)
  | .version => some (.answer .version)
  | key =>
    if key.valueName?.isSome then some (.awaiting key r) else (r.turnOn? key).map .reading

/-- Reads what stands after two dashes. -/
def readLong (r : Reading) (text : List Char) : Option Progress :=
  match Key.ofName? (String.ofList (text.takeWhile (· ≠ '='))) with
  | none => none
  | some key =>
    match text.dropWhile (· ≠ '=') with
    | _ :: value => (r.assign? key (String.ofList value)).map .reading
    | [] => readBare r key

/-- Reads the letters after one dash. -/
def readShort (r : Reading) : List Char → Option Progress
  | [] => some (.reading r)
  | c :: rest =>
    match Key.ofLetter? c with
    | none => none
    | some key =>
      match readBare r key, rest with
      | some (.reading r), rest => readShort r rest
      | some (.awaiting key r), '=' :: value =>
        (r.assign? key (String.ofList value)).map .reading
      | some (.awaiting key r), c :: value =>
        (r.assign? key (String.ofList (c :: value))).map .reading
      | progress, _ => progress

/-- Reads one argument. -/
def readArgument (r : Reading) (argument : String) : Option Progress :=
  match argument.toList with
  | '-' :: '-' :: text => readLong r text
  | '-' :: c :: text => readShort r (c :: text)
  | _ => (r.input? argument).map .reading

/-- Does an argument look like an option? -/
def isOptionLike (argument : String) : Bool :=
  match argument.toList with
  | '-' :: _ :: _ => true
  | _ => false

/-- Reads the further arguments. -/
def readFrom (r : Reading) : List String → Option Request
  | [] => r.finish?
  | argument :: rest =>
    if argument = "--" then (rest.foldlM Reading.input? r).bind Reading.finish?
    else match readArgument r argument, rest with
      | some (.reading r), rest => readFrom r rest
      | some (.answer request), _ => some request
      | some (.awaiting key r), value :: rest =>
        if isOptionLike value then none
        else match r.assign? key value with
          | some r => readFrom r rest
          | none => none
      | some (.awaiting ..), [] => none
      | none, _ => none

/-- What the arguments ask for; none if they are not in order. -/
def parse? (arguments : List String) : Option Request := readFrom {} arguments

end DeclAtlas.CommandLine
