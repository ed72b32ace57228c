import DeclAtlas.Toml.Value

/-!
# Building tables

A document names the same table more than once: a header enters the tables above its own,
a dotted key the tables its segments name. Each key may be given one value, and a table may
be opened only once:

* a header opens a table that is new, or that only headers of inner tables have implied;
* a dotted key enters tables that are new or came from headers or dotted keys without being
  opened, and puts its value into a table that dotted keys made;
* under a header in double brackets each opening adds one more table, and the last one is
  the one that later lines enter;
* what is written between braces is closed.
-/

namespace DeclAtlas.Toml

/-- May the header of an inner table pass through such a table? -/
def Origin.admitsHeader : Origin → Bool
  | header | implied | dotted => true
  | braces | bracesDotted => false

/-- May a dotted key pass through such a table? -/
def Origin.admitsKey : Origin → Bool
  | implied | dotted | bracesDotted => true
  | braces | header => false

namespace Entries

/-- The value of a key. -/
def find? (key : String) (entries : Entries) : Option Value := entries.lookup key

/-- The entries with another value for a key they have. -/
def replace (key : String) (v : Value) (entries : Entries) : Entries :=
  entries.map fun e => if e.1 = key then (key, v) else e

/-- The entries without a key. -/
def erase (key : String) (entries : Entries) : Entries := entries.filter (·.1 ≠ key)

/-- The entries with a new key at the end. -/
def add? (key : String) (v : Value) (entries : Entries) : Option Entries :=
  if (find? key entries).isSome then none else some (entries ++ [(key, v)])

/--
Changes the table that a path leads to. Tables on the way that are missing are made with
the origin `fresh`; one that is there must be admitted.
-/
def update (admits : Origin → Bool) (fresh : Origin)
    (change : Origin → Entries → Option Entries) :
    (path : List String) → Origin → Entries → Option Entries
  | [], origin, entries => change origin entries
  | key :: path, _, entries =>
    match find? key entries with
    | none =>
      (update admits fresh change path fresh []).map fun inner =>
        entries ++ [(key, .table fresh inner)]
    | some (.table origin inner) =>
      if admits origin then
        (update admits fresh change path origin inner).map fun inner =>
          replace key (.table origin inner) entries
      else none
    | some (.tables items) =>
      match items.getLast? with
      | some (.table origin inner) =>
        (update admits fresh change path origin inner).map fun inner =>
          replace key (.tables (items.dropLast ++ [.table origin inner])) entries
      | _ => none
    | some _ => none

/--
Gives a value to a key behind a path of dotted segments; tables it makes have the origin
`fresh`, and only in such tables may the value be put.
-/
def insert? (fresh : Origin) (path : List String) (key : String) (v : Value)
    (entries : Entries) : Option Entries :=
  update Origin.admitsKey fresh
    (fun origin inner => if path.isEmpty ∨ origin = fresh then add? key v inner else none)
    path .header entries

/-- Opens the table `key` for what `fill` puts into it. -/
def openTable? (fill : Entries → Option Entries) (key : String) (entries : Entries) :
    Option Entries :=
  let reopened := match find? key entries with
    | none => some []
    | some (.table .implied inner) => some inner
    | some _ => none
  (reopened.bind fill).map fun inner => erase key entries ++ [(key, .table .header inner)]

/-- Adds one more table under `key`, with what `fill` puts into it. -/
def pushTable? (fill : Entries → Option Entries) (key : String) (entries : Entries) :
    Option Entries :=
  (fill []).bind fun inner =>
    match find? key entries with
    | none => some (entries ++ [(key, .tables [.table .header inner])])
    | some (.tables items) =>
      some (replace key (.tables (items ++ [.table .header inner])) entries)
    | some _ => none

end Entries

/-- A value with the path of tables and the key it is given to. -/
structure Assignment where
  path : List String
  key : String
  value : Value

/-- A header with the assignments after it. -/
structure Section where
  /-- The tables above its own. -/
  path : List String
  key : String
  /-- Is the header in double brackets? -/
  isItem : Bool
  assignments : List Assignment

/-- A document: what stands before the first header, and the sections. -/
structure Document where
  preamble : List Assignment
  sections : List Section

/-- The entries with assignments carried out, one after the other. -/
def Entries.assign? (fresh : Origin) (entries : Entries) (assignments : List Assignment) :
    Option Entries :=
  assignments.foldlM (fun entries a => entries.insert? fresh a.path a.key a.value) entries

/-- The entries with a section put in its place. -/
def Section.place? (entries : Entries) (s : Section) : Option Entries :=
  let fill (inner : Entries) := inner.assign? .dotted s.assignments
  Entries.update Origin.admitsHeader .implied
    (fun _ inner =>
      if s.isItem then Entries.pushTable? fill s.key inner
      else Entries.openTable? fill s.key inner)
    s.path .header entries

/-- The table that a document describes. -/
def Document.entries? (d : Document) : Option Entries :=
  (Entries.assign? .dotted [] d.preamble).bind (d.sections.foldlM Section.place?)

end DeclAtlas.Toml
