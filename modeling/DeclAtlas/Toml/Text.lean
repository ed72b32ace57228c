import DeclAtlas.Text.Digit

/-!
# TOML strings

Strings are quoted once, for one line, or three times, for any number of lines. Between
double quotes a backslash escapes what follows; between single quotes every character
stands for itself. Of the control characters only the tab may stand in a string, and line
breaks where there may be several lines; each of them reads as a line feed.
-/

namespace DeclAtlas.Toml

/-- Characters that a string or a comment may hold as they are. -/
def isTextChar (c : Char) : Bool :=
  let n := c.toNat
  c == '\t' || (0x20 ≤ n && n != 0x7F)

/-- The blanks inside a line. -/
def isSpace (c : Char) : Bool := c == ' ' || c == '\t'

/-- Without the blanks at the front. -/
def dropSpaces (cs : List Char) : List Char := cs.dropWhile isSpace

/-- The character that an escape letter stands for. -/
def unescape? (c : Char) : Option Char :=
  match c with
  | 'b' => some '\x08'
  | 't' => some '\t'
  | 'n' => some '\n'
  | 'f' => some '\x0c'
  | 'r' => some '\r'
  | '"' => some '"'
  | '\\' => some '\\'
  | _ => none

/-- The character with a number in hexadecimal digits. -/
def scalar? (digits : List Char) : Option Char :=
  match Text.number? 16 digits with
  | some n => if n < 0xD800 ∨ (0xE000 ≤ n ∧ n < 0x110000) then some (Char.ofNat n) else none
  | none => none

/--
Reads a string up to the quote that ends it: its text, and what follows. `done` holds the
characters read, last one first.
-/
def takeLine (quote : Char) (done : List Char) : List Char → Option (String × List Char)
  | [] => none
  | c :: rest =>
    if c = quote then some (String.ofList done.reverse, rest)
    else if c = '\\' ∧ quote = '"' then
      match rest with
      | 'u' :: a :: b :: c :: d :: rest =>
        match scalar? [a, b, c, d] with
        | some c => takeLine quote (c :: done) rest
        | none => none
      | 'U' :: a :: b :: c :: d :: e :: f :: g :: h :: rest =>
        match scalar? [a, b, c, d, e, f, g, h] with
        | some c => takeLine quote (c :: done) rest
        | none => none
      | c :: rest =>
        match unescape? c with
        | some c => takeLine quote (c :: done) rest
        | none => none
      | [] => none
    else if isTextChar c then takeLine quote (c :: done) rest
    else none

/-- Where a reader stands in a string of several lines. -/
inductive LineState where
  /-- In the text. -/
  | text
  /-- After a backslash and blanks; a line break must follow. -/
  | ending
  /-- After an escaped line break; blanks and further breaks are passed over. -/
  | skipping
deriving DecidableEq

/-- The line break at the front, if any, and what follows it. -/
def lineBreak? : List Char → Option (List Char)
  | '\n' :: rest => some rest
  | '\r' :: '\n' :: rest => some rest
  | _ => none

/--
Reads a string of several lines up to the three quotes that end it. One or two further
quotes before those three belong to the text.
-/
def takeLines (quote : Char) (state : LineState) (done : List Char) :
    List Char → Option (String × List Char)
  | [] => none
  | '\n' :: rest =>
    if state = .text then takeLines quote .text ('\n' :: done) rest
    else takeLines quote .skipping done rest
  | '\r' :: '\n' :: rest =>
    if state = .text then takeLines quote .text ('\n' :: done) rest
    else takeLines quote .skipping done rest
  | c :: rest =>
    if state ≠ .text ∧ isSpace c then takeLines quote state done rest
    else if state = .ending then none
    else if c = quote then
      match rest with
      | d :: e :: after =>
        if d = quote ∧ e = quote then
          let extra := (after.takeWhile (· = quote)).length
          if extra ≤ 2 then
            some (String.ofList (List.replicate extra quote ++ done).reverse, after.drop extra)
          else none
        else takeLines quote .text (c :: done) (d :: e :: after)
      | _ => none
    else if c = '\\' ∧ quote = '"' then
      match rest with
      | 'u' :: a :: b :: c :: d :: rest =>
        match scalar? [a, b, c, d] with
        | some c => takeLines quote .text (c :: done) rest
        | none => none
      | 'U' :: a :: b :: c :: d :: e :: f :: g :: h :: rest =>
        match scalar? [a, b, c, d, e, f, g, h] with
        | some c => takeLines quote .text (c :: done) rest
        | none => none
      | c :: rest =>
        if isSpace c then takeLines quote .ending done rest
        else if c = '\n' then takeLines quote .skipping done rest
        else if c = '\r' then takeLines quote .ending done (c :: rest)
        else match unescape? c with
          | some c => takeLines quote .text (c :: done) rest
          | none => none
      | [] => none
    else if isTextChar c then takeLines quote .text (c :: done) rest
    else none

/-- Reads a string that begins with `quote`; a line break right after three quotes is dropped. -/
def takeString (quote : Char) (rest : List Char) : Option (String × List Char) :=
  match rest with
  | c :: d :: after =>
    if c = quote ∧ d = quote then takeLines quote .text [] ((lineBreak? after).getD after)
    else takeLine quote [] rest
  | _ => takeLine quote [] rest

end DeclAtlas.Toml
