import DeclAtlas.Json.Value
import DeclAtlas.Text.Digit

/-!
# Reading JSON

Strict JSON: nothing but blanks around the value, no trailing comma, no leading zero, no
raw control character in a string, no escape beyond those of JSON. The text is cut into
tokens, and a machine with a stack of open containers puts the tokens together, so that
nesting costs no stack of its own.

## Main results

* `step_open`: what the machine makes of a bracket that begins an array.
-/

namespace DeclAtlas.Json

/-! ## Tokens -/

/-- A piece of JSON text. -/
inductive Token where
  | openBrace | closeBrace | openBracket | closeBracket | colon | comma
  | null
  | bool (b : Bool)
  | number (lexeme : String)
  | string (text : Option String)
deriving DecidableEq

/-- The blanks of JSON. -/
def isSpace (c : Char) : Bool := c == ' ' || c == '\t' || c == '\n' || c == '\r'

/-- What a string is made of: characters, and sixteen-bit units written in hexadecimal. -/
inductive Piece where
  | char (c : Char)
  | unit (n : Nat)
deriving DecidableEq

/-- The character that an escape letter stands for. -/
def unescape? (c : Char) : Option Char :=
  match c with
  | '"' => some '"'
  | '\\' => some '\\'
  | '/' => some '/'
  | 'b' => some '\x08'
  | 'f' => some '\x0c'
  | 'n' => some '\n'
  | 'r' => some '\r'
  | 't' => some '\t'
  | _ => none

/-- The sixteen-bit unit that four hexadecimal digits spell. -/
def hexUnit? (a b c d : Char) : Option Nat := Text.number? 16 [a, b, c, d]

/--
Reads a string up to its closing quote: its pieces, and what follows. `done` holds the
pieces read, last one first.
-/
def takeString (done : List Piece) : List Char → Option (List Piece × List Char)
  | [] => none
  | '"' :: rest => some (done.reverse, rest)
  | '\\' :: 'u' :: a :: b :: c :: d :: rest =>
    match hexUnit? a b c d with
    | some n => takeString (.unit n :: done) rest
    | none => none
  | '\\' :: c :: rest =>
    match unescape? c with
    | some c => takeString (.char c :: done) rest
    | none => none
  | c :: rest => if c.toNat < 0x20 ∨ c = '\\' then none else takeString (.char c :: done) rest

/--
The text that pieces spell. A unit from the surrogate range counts only as the first or
second half of a pair.
-/
def textOf : List Piece → Option (List Char)
  | [] => some []
  | .char c :: rest => (textOf rest).map (c :: ·)
  | .unit n :: rest =>
    if n < 0xD800 ∨ 0xE000 ≤ n then (textOf rest).map (Char.ofNat n :: ·)
    else match rest with
      | .unit m :: rest =>
        if n < 0xDC00 ∧ 0xDC00 ≤ m ∧ m < 0xE000 then
          let c := Char.ofNat (0x10000 + (n - 0xD800) * 0x400 + (m - 0xDC00))
          (textOf rest).map (c :: ·)
        else none
      | _ => none

/-- Without the digits at the front; `none` if there are none. -/
def dropDigits? (cs : List Char) : Option (List Char) :=
  match cs with
  | c :: rest => if c.isDigit then some (rest.dropWhile Char.isDigit) else none
  | [] => none

/-- Does a text spell a JSON number? -/
def isNumber (cs : List Char) : Bool :=
  let cs := match cs with
    | '-' :: rest => rest
    | cs => cs
  let afterInteger := match cs with
    | '0' :: rest => some rest
    | cs => dropDigits? cs
  let afterFraction := afterInteger.bind fun cs => match cs with
    | '.' :: rest => dropDigits? rest
    | cs => some cs
  let afterExponent := afterFraction.bind fun cs => match cs with
    | e :: rest =>
      if e = 'e' ∨ e = 'E' then
        match rest with
        | s :: digits => if s = '+' ∨ s = '-' then dropDigits? digits else dropDigits? rest
        | [] => none
      else some cs
    | [] => some []
  afterExponent = some []

/-- The characters that numbers are made of. -/
def isNumberChar (c : Char) : Bool :=
  c.isDigit || c == '-' || c == '+' || c == '.' || c == 'e' || c == 'E'

/-- The token that begins with `c`, and what follows it. -/
def takeToken? (c : Char) (rest : List Char) : Option (Token × List Char) :=
  match c with
  | '\x7b' => some (.openBrace, rest)
  | '\x7d' => some (.closeBrace, rest)
  | '[' => some (.openBracket, rest)
  | ']' => some (.closeBracket, rest)
  | ':' => some (.colon, rest)
  | ',' => some (.comma, rest)
  | '"' =>
    (takeString [] rest).map fun (pieces, rest) =>
      (.string ((textOf pieces).map String.ofList), rest)
  | 'n' => (("ull".toList.isPrefixOf? rest)).map (.null, ·)
  | 't' => (("rue".toList.isPrefixOf? rest)).map (.bool true, ·)
  | 'f' => (("alse".toList.isPrefixOf? rest)).map (.bool false, ·)
  | c =>
    let lexeme := c :: rest.takeWhile isNumberChar
    if isNumber lexeme then
      some (.number (String.ofList lexeme), rest.dropWhile isNumberChar)
    else none

/--
The tokens of a text. `done` holds those read, last one first; every token takes at least
one character, so the length of the text is enough fuel.
-/
def tokensFrom : Nat → List Token → List Char → Option (List Token)
  | _, done, [] => some done.reverse
  | 0, _, _ :: _ => none
  | fuel + 1, done, c :: rest =>
    if isSpace c then tokensFrom fuel done rest
    else match takeToken? c rest with
      | some (t, rest) => tokensFrom fuel (t :: done) rest
      | none => none

/-- The tokens of a text. -/
def tokens? (cs : List Char) : Option (List Token) := tokensFrom cs.length [] cs

/-! ## Values -/

/-- A container that is still open, with its contents last one first. -/
inductive Frame where
  | array (items : List Value)
  /-- An object, whose member `key` is being read. -/
  | object (members : List (Option String × Value)) (key : Option String)

/-- What the machine is waiting for, inside the containers that are open. -/
inductive State where
  /-- A value. -/
  | value (stack : List Frame)
  /-- The first item of an array, or its end. -/
  | arrayStart (stack : List Frame)
  /-- The first key of an object, or its end. -/
  | objectStart (stack : List Frame)
  /-- A further key of an object. -/
  | key (members : List (Option String × Value)) (stack : List Frame)
  /-- The colon after a key. -/
  | colon (key : Option String) (members : List (Option String × Value)) (stack : List Frame)
  /-- What comes after a value. -/
  | done (v : Value) (stack : List Frame)

/-- The state after a token that begins a value. -/
def begin? (stack : List Frame) : Token → Option State
  | .null => some (.done .null stack)
  | .bool b => some (.done (.bool b) stack)
  | .number lexeme => some (.done (.number lexeme) stack)
  | .string s => some (.done (.string s) stack)
  | .openBracket => some (.arrayStart stack)
  | .openBrace => some (.objectStart stack)
  | _ => none

/-- The state after a token. -/
def step? : State → Token → Option State
  | .value stack, t => begin? stack t
  | .arrayStart stack, t =>
    if t = .closeBracket then some (.done (.array []) stack)
    else begin? (.array [] :: stack) t
  | .objectStart stack, t =>
    match t with
    | .closeBrace => some (.done (.object []) stack)
    | .string k => some (.colon k [] stack)
    | _ => none
  | .key members stack, t =>
    match t with
    | .string k => some (.colon k members stack)
    | _ => none
  | .colon k members stack, t =>
    if t = .colon then some (.value (.object members k :: stack)) else none
  | .done v (.array items :: stack), t =>
    match t with
    | .comma => some (.value (.array (v :: items) :: stack))
    | .closeBracket => some (.done (.array (v :: items).reverse) stack)
    | _ => none
  | .done v (.object members k :: stack), t =>
    match t with
    | .comma => some (.key ((k, v) :: members) stack)
    | .closeBrace => some (.done (.object ((k, v) :: members).reverse) stack)
    | _ => none
  | .done _ [], _ => none

/-- The state after a list of tokens. -/
def run? (s : State) (ts : List Token) : Option State := ts.foldlM step? s

/-- The value of a text. -/
def parseChars? (cs : List Char) : Option Value :=
  match (tokens? cs).bind (run? (.value [])) with
  | some (.done v []) => some v
  | _ => none

/-- The value of a text. -/
def parse? (s : String) : Option Value := parseChars? s.toList

/-! ## Small lemmas -/

@[simp] theorem step_open (stack : List Frame) :
    step? (.value stack) .openBracket = some (.arrayStart stack) := rfl

end DeclAtlas.Json
