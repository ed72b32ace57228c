import DeclAtlas.Shape.Basic
import DeclAtlas.Text.Blank
import DeclAtlas.Text.Segment
import DeclAtlas.Text.WordChar

/-!
# Reading a spelling

A spelling is cleaned first: the words `struct`, `class`, `union` and `enum` go where they
stand before a type name, and every run of blanks becomes one space. If a parenthesis is
left that belongs to no anonymous namespace, the spelling is not taken apart. Otherwise the
layers come off its end, one by one, until a name is left:

* a row of array extents, the first of them outermost;
* `&&`, `&`, `*`, and `*` with `const` after it.

A name keeps its words but for the qualifiers among them; of these only `const` counts.

The layers are read from the end, so the text is handed on reversed. Every layer takes at
least one character, so the length of the text is enough fuel.
-/

namespace DeclAtlas.Shape

open Text

/-- How the compiler writes a namespace without a name. -/
def anonymousNamespace : String := "(anonymous namespace)"

/-! ## Cleaning -/

/-- The words that may stand before the name of a type and say nothing new. -/
def elaboratedKeywords : List (List Char) :=
  ["struct".toList, "class".toList, "union".toList, "enum".toList]

/--
How many characters an elaborated keyword and the blanks after it take at the front of a
text, or `none` if there is no keyword, no blank, or a word character directly before.
-/
def elaboratedLength? (before : Option Char) (cs : List Char) : Option Nat :=
  if before.any isWordChar then none
  else elaboratedKeywords.findSome? fun word =>
    match word.isPrefixOf? cs with
    | none => none
    | some rest =>
      let blanks := (rest.takeWhile isBlank).length
      if blanks = 0 then none else some (word.length + blanks)

/--
A text without its elaborated keywords. `before` is the character before the text, and
`skip` characters at its front are part of a keyword already met.
-/
def dropElaborated (before : Option Char) (skip : Nat) : List Char → List Char
  | [] => []
  | c :: cs =>
    match skip with
    | skip + 1 => dropElaborated (some c) skip cs
    | 0 =>
      match elaboratedLength? before (c :: cs) with
      | some k => dropElaborated (some c) (k - 1) cs
      | none => c :: dropElaborated (some c) 0 cs

/-- A text with one space for every run of blanks. -/
def squeeze (inBlanks : Bool) : List Char → List Char
  | [] => []
  | c :: cs =>
    if isBlank c then
      if inBlanks then squeeze true cs else ' ' :: squeeze true cs
    else c :: squeeze false cs

/-- A spelling without elaborated keywords and superfluous blanks. -/
def clean (spelling : List Char) : List Char :=
  squeeze false (trimChars (dropElaborated none 0 spelling))

/-- Is there an opening parenthesis that begins no anonymous namespace? -/
def hasStrayParen : List Char → Bool
  | [] => false
  | c :: cs =>
    (c == '(' && !anonymousNamespace.toList.isPrefixOf (c :: cs)) || hasStrayParen cs

/-! ## Taking layers off -/

/-- The extent written last, and what stands before it; texts are reversed. -/
def takeExtent? : List Char → Option (List Char × List Char)
  | ']' :: cs =>
    let plain := fun c => c != '[' && c != ']'
    match cs.dropWhile plain with
    | '[' :: rest => some ((cs.takeWhile plain).reverse, rest)
    | _ => none
  | _ => none

/-- The row of extents at the end, first one first, and what stands before the row. -/
def takeExtents : Nat → List (List Char) → List Char → List (List Char) × List Char
  | 0, found, cs => (found, cs)
  | fuel + 1, found, cs =>
    match takeExtent? cs with
    | some (e, rest) => takeExtents fuel (e :: found) rest
    | none => (found, cs)

/-- An extent without blanks around it; nothing between the brackets leaves it open. -/
def extentOf (cs : List Char) : Option String :=
  let cs := trimChars cs
  if cs.isEmpty then none else some (String.ofList cs)

/-- What stands before a final `*const`, in which blanks may follow the star. -/
def takeConstPointer? (cs : List Char) : Option (List Char) :=
  match cs with
  | 't' :: 's' :: 'n' :: 'o' :: 'c' :: rest =>
    match trimStart rest with
    | '*' :: rest => some rest
    | _ => none
  | _ => none

/-- The qualifiers that a name loses without a trace. -/
def silentQualifiers : List (List Char) :=
  ["volatile".toList, "restrict".toList, "__restrict".toList]

/-- The words of a name without its qualifiers; const if `const` is one of the words. -/
def readNamed (cs : List Char) : Shape :=
  let ws := words cs
  let isConst := ws.contains "const".toList
  let kept := ws.filter fun w => w != "const".toList && !silentQualifiers.contains w
  named (joinWith " " (kept.map String.ofList)) isConst

/-- Takes the layers off a reversed text. -/
def declarator : Nat → List Char → Shape
  | 0, cs => readNamed cs.reverse
  | fuel + 1, cs =>
    let cs := trimStart cs
    match takeExtents fuel [] cs with
    | (e :: es, rest) =>
      (e :: es).foldr (fun e s => array s (extentOf e)) (declarator fuel rest)
    | ([], _) =>
      match cs with
      | '&' :: '&' :: rest => rValueRef (declarator fuel rest)
      | '&' :: rest => lValueRef (declarator fuel rest)
      | '*' :: rest => pointer (declarator fuel rest) false
      | _ =>
        match takeConstPointer? cs with
        | some rest => pointer (declarator fuel rest) true
        | none => readNamed cs.reverse

/-- Reads a spelling, given as characters. -/
def parseChars (spelling : List Char) : Shape :=
  let cs := clean spelling
  if hasStrayParen cs then verbatim (String.ofList cs)
  else declarator (cs.length + 1) cs.reverse

/-- Reads a spelling. -/
def parse (spelling : String) : Shape := parseChars spelling.toList

example : parse "struct Point *const[3]" =
    array (pointer (named "Point" false) true) (some "3") := by decide

example : parse "void (*)(int)" = verbatim "void (*)(int)" := by decide

end DeclAtlas.Shape
