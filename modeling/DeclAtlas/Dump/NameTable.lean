import DeclAtlas.Declaration.Basic
import DeclAtlas.Text.Segment

/-!
# Name tables

What each name of a source file stands for: a record, an enum, or an alias with what
it stands for in turn. The first registration of a name counts, except that the definition
of a record takes the place of an earlier declaration of it.

A written name is looked up from the inside out: in each of the scopes around it, then as
it is written, and last as the end of a longer name if only one name ends so.

## Main results

* `get?_insert_self`, `get?_insert_other`: the first registration of a name counts.
* `get?_define_self`, `get?_define_other`: a definition replaces a declaration of a record,
  and nothing else.
-/

namespace DeclAtlas.Dump

/-- What a name stands for. -/
inductive NameMeaning where
  | record (declaration : Declaration)
  | enumeration (declaration : Declaration)
  /-- An alias: what was written for it, and the scopes it was written in. -/
  | typeAlias (declaration : Declaration) (target : String) (scope : List String)
deriving DecidableEq, Inhabited

/-- The declaration of a name. -/
def NameMeaning.declaration : NameMeaning → Declaration
  | record d | enumeration d | typeAlias d _ _ => d

/-- Names with their meanings, in the order of first registration. -/
structure NameTable where
  names : List (String × NameMeaning) := []
deriving DecidableEq, Inhabited

namespace NameTable

/-- The meaning of a name. -/
def get? (t : NameTable) (name : String) : Option NameMeaning :=
  (t.names.find? fun p => p.1 = name).map (·.2)

/-- Is the name registered? -/
def has (t : NameTable) (name : String) : Bool := (t.get? name).isSome

/-- Registers a name, unless it is registered already. -/
def insert (t : NameTable) (name : String) (meaning : NameMeaning) : NameTable :=
  if t.has name then t else ⟨t.names ++ [(name, meaning)]⟩

/-- Registers the definition of a record, in place of an earlier declaration of it. -/
def define (t : NameTable) (name : String) (d : Declaration) : NameTable :=
  match t.get? name with
  | none => t.insert name (.record d)
  | some (.record _) =>
    ⟨t.names.map fun p => if p.1 = name then (name, .record d) else p⟩
  | some _ => t

/-- Names that a lookup from inside `scope` tries before the name as written. -/
def candidates (name : String) (scope : List String) : List String :=
  scope.reverse.map (Text.qualify · name)

/-- The registered names that end in `::` and the name. -/
def endingIn (t : NameTable) (name : String) : List String :=
  (t.names.map (·.1)).filter (Text.endsWith ("::" ++ name))

/-- The registered name that a written name refers to. -/
def resolve? (t : NameTable) (name : String) (scope : List String) : Option String :=
  match Text.dropHead? "::" name with
  | some global => if t.has global then some global else none
  | none =>
    match (candidates name scope ++ [name]).find? t.has with
    | some found => some found
    | none =>
      match t.endingIn name with
      | [only] => some only
      | _ => none

/-! ## Small lemmas -/

theorem find?_append_self {names : List (String × NameMeaning)} {name : String}
    (h : names.find? (fun p => p.1 = name) = none) (m : NameMeaning) :
    (names ++ [(name, m)]).find? (fun p => p.1 = name) = some (name, m) := by
  simp [List.find?_append, h]

/-- The first registration of a name counts. -/
theorem get?_insert_self (t : NameTable) (name : String) (m : NameMeaning) :
    (t.insert name m).get? name = some ((t.get? name).getD m) := by
  unfold insert
  cases h : t.get? name with
  | some m' => simp [has, h]
  | none =>
    have h' : t.names.find? (fun p => p.1 = name) = none := by
      simpa [get?, Option.map_eq_none_iff] using h
    simp only [has, h, Option.isSome_none, Bool.false_eq_true, if_false]
    simp only [get?]
    rw [find?_append_self h' m]
    simp

/-- Registering a name changes no other. -/
theorem get?_insert_other (t : NameTable) {name other : String} (m : NameMeaning)
    (h : name ≠ other) : (t.insert name m).get? other = t.get? other := by
  unfold insert
  split
  · rfl
  · simp [get?, List.find?_append, h]

theorem find?_replace_self {names : List (String × NameMeaning)} {name : String}
    (h : (names.find? fun p => p.1 = name).isSome) (m : NameMeaning) :
    (names.map fun p => if p.1 = name then (name, m) else p).find? (fun p => p.1 = name) =
      some (name, m) := by
  induction names with
  | nil => simp at h
  | cons p ps ih =>
    by_cases hp : p.1 = name
    · simp [hp]
    · simpa [hp] using ih (by simpa [hp] using h)

/-- A defined name keeps an enum or alias, and else stands for the record. -/
theorem get?_define_self (t : NameTable) (name : String) (d : Declaration) :
    (t.define name d).get? name =
      match t.get? name with
      | some (.enumeration e) => some (.enumeration e)
      | some (.typeAlias a target scope) => some (.typeAlias a target scope)
      | _ => some (.record d) := by
  unfold define
  split
  · rename_i h; rw [get?_insert_self, h]; rfl
  · rename_i e h
    have found : (t.names.find? fun p => p.1 = name).isSome := by
      cases hf : t.names.find? fun p => p.1 = name with
      | some p => rfl
      | none => simp [get?, hf] at h
    rw [h]
    simp only [get?, find?_replace_self found, Option.map_some]
  · rename_i m hr h
    rw [h]
    cases m with
    | record e => exact (hr e rfl).elim
    | enumeration e => rfl
    | typeAlias a target scope => rfl

/-- Defining a record changes no other name. -/
theorem get?_define_other (t : NameTable) {name other : String} (d : Declaration)
    (h : name ≠ other) : (t.define name d).get? other = t.get? other := by
  unfold define
  split
  · exact get?_insert_other t _ h
  · simp only [get?]
    congr 1
    induction t.names with
    | nil => rfl
    | cons p ps ih =>
      by_cases hp : p.1 = name
      · simp [hp, h, ih]
      · by_cases ho : p.1 = other
        · subst ho; simp [hp]
        · simp [hp, ho, ih]
  · rfl

end NameTable

end DeclAtlas.Dump
