/-!
# Qualified names

A qualified name is written as segments joined by `::`. Its last segment is what stands
after the rightmost `::`, which may overlap an earlier one (`a:::b` ends in `b`).
-/

namespace DeclAtlas.Text

/--
What stands after the rightmost `::`, or `best` where there is none. Each `::` met on
the way replaces the candidate, and the scan moves on by one character so that an
overlapping pair is met as well.
-/
def lastSegmentFrom (best : List Char) : List Char → List Char
  | [] => best
  | [_] => best
  | c :: d :: rest =>
    lastSegmentFrom (if c = ':' ∧ d = ':' then rest else best) (d :: rest)

/-- The last segment of a qualified name. -/
def lastSegment (name : String) : String :=
  String.ofList (lastSegmentFrom name.toList name.toList)

/-- The name `inner` inside the scope `outer`. -/
def qualify (outer inner : String) : String := outer ++ "::" ++ inner

/-- Does `text` start with `head`? -/
def startsWith (head text : String) : Bool := head.toList.isPrefixOf text.toList

/-- Does `text` end with `tail`? -/
def endsWith (tail text : String) : Bool := tail.toList.isSuffixOf text.toList

/-- What follows `head` in `text`, if `text` starts with it. -/
def dropHead? (head text : String) : Option String :=
  (head.toList.isPrefixOf? text.toList).map String.ofList

/-- The texts with `separator` between each two. -/
def joinWith (separator : String) : List String → String
  | [] => ""
  | [s] => s
  | s :: t :: rest => s ++ separator ++ joinWith separator (t :: rest)

end DeclAtlas.Text
