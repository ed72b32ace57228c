import DeclAtlas.Text.Digit
import DeclAtlas.Toml.Value

/-!
# Moments in time

A date, a time of day, or a date with a time of day and perhaps its offset from universal
time. In a document a moment is a word.

A table can stand for a moment as well: its first key is then a mark, and it holds nothing
but the text of the moment under that key. Such a text is read more freely than a word:
a blank may divide date and time, an hour may be the twenty-fourth, and an offset is any
hours and minutes that come to no more than a day. A table that has the mark first and is no
moment cannot be read; behind other keys the mark is a key as any other.
-/

namespace DeclAtlas.Toml

/-! ## Dates and times -/

/-- A number of two digits, within bounds. -/
def isTwoDigits (low high : Nat) (a b : Char) : Bool :=
  (Text.number? 10 [a, b]).any fun n => low ≤ n && n ≤ high

/-- The days of a month. -/
def daysIn (year month : Nat) : Nat :=
  if month = 2 then
    if year % 4 = 0 ∧ (year % 100 ≠ 0 ∨ year % 400 = 0) then 29 else 28
  else if month = 4 ∨ month = 6 ∨ month = 9 ∨ month = 11 then 30
  else 31

/-- What follows a date. -/
def afterDate? : List Char → Option (List Char)
  | y :: y' :: y'' :: y''' :: '-' :: m :: m' :: '-' :: d :: d' :: rest =>
    match Text.number? 10 [y, y', y'', y'''], Text.number? 10 [m, m'] with
    | some year, some month =>
      if isTwoDigits 1 12 m m' && isTwoDigits 1 (daysIn year month) d d' then some rest
      else none
    | _, _ => none
  | _ => none

/-- What follows a time of day; a minute may have a sixty-first second. -/
def afterTime? (lastHour : Nat) : List Char → Option (List Char)
  | h :: h' :: ':' :: m :: m' :: ':' :: s :: s' :: rest =>
    if isTwoDigits 0 lastHour h h' && isTwoDigits 0 59 m m' && isTwoDigits 0 60 s s' then
      match rest with
      | '.' :: c :: rest =>
        if Text.isDigit 10 c then some (rest.dropWhile (Text.isDigit 10)) else none
      | rest => some rest
    else none
  | _ => none

/-- Is this nothing, or the offset of a time from universal time, of admitted length? -/
def isOffset (admits : (hours minutes : Nat) → Bool) : List Char → Bool
  | [] => true
  | ['Z'] | ['z'] => true
  | [sign, h, h', ':', m, m'] =>
    match Text.number? 10 [h, h'], Text.number? 10 [m, m'] with
    | some hours, some minutes => (sign == '+' || sign == '-') && admits hours minutes
    | _, _ => false
  | _ => false

/-! ## Moments as words -/

/-- Is this word a time of day, with an offset or without? -/
def isTimeWord (word : List Char) : Bool :=
  (afterTime? 23 word).any (isOffset fun hours minutes => hours ≤ 23 && minutes ≤ 59)

/-- Is this word a date, a time of day, or a date with a time of day? -/
def isMomentWord (word : List Char) : Bool :=
  match afterDate? word with
  | some [] => true
  | some (c :: time) => (c == 'T' || c == 't') && isTimeWord time
  | none => afterTime? 23 word == some []

/-! ## Moments in tables -/

/-- The first key of a table that stands for a moment. -/
def momentMark : String := "$__toml_private_datetime"

/-- Is this the text of a moment, as a table holds it? -/
def isMomentText (text : List Char) : Bool :=
  match afterDate? text with
  | some [] => true
  | some (c :: time) =>
    (c == 'T' || c == 't' || c == ' ') &&
      (afterTime? 24 time).any (isOffset fun hours minutes => hours * 60 + minutes ≤ 24 * 60)
  | none => afterTime? 24 text == some []

/-- Are these the entries of an ordinary table, or of one that stands for a moment? -/
def Entries.keepsMark : Entries → Bool
  | [] => true
  | (key, v) :: rest =>
    key ≠ momentMark || (rest.isEmpty && v.string?.any fun text => isMomentText text.toList)

mutual

/-- Is each table in this value that is marked as a moment one? -/
def Value.keepsMarks : Value → Bool
  | .array items | .tables items => allKeepMarks items
  | .table _ entries => Entries.keepsMark entries && entriesKeepMarks entries
  | _ => true

/-- Is each table in these values that is marked as a moment one? -/
def allKeepMarks : List Value → Bool
  | [] => true
  | v :: rest => v.keepsMarks && allKeepMarks rest

/-- Is each table in these entries that is marked as a moment one? -/
def entriesKeepMarks : List (String × Value) → Bool
  | [] => true
  | (_, v) :: rest => v.keepsMarks && entriesKeepMarks rest

end

end DeclAtlas.Toml
