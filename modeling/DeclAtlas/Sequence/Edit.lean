import DeclAtlas.Sequence.Basic

/-!
# Operations on a sequence

Everything that can be done to one sequence in place, as a value, so that what is true of
every operation can be said once.

## Main results

* `Edit.run`: what an operation hands back, and the sequence after it.
-/

universe u

namespace DeclAtlas.Sequence

/-- An operation on a sequence in place. -/
inductive Edit (α : Type u) where
  | push (x : α)
  /-- Adds `x` at the end and changes it there. -/
  | pushThen (x : α) (f : α → α)
  | pop
  | insert (i : Nat) (x : α)
  | insertAll (i : Nat) (xs : List α)
  | remove (i : Nat)
  | removeRange (start stop : Nat)
  | truncate (k : Nat)
  | clear
  /-- Reads the element at position `i`. -/
  | read (i : Nat)
  /-- Changes the element at position `i`, and hands back what it was. -/
  | change (i : Nat) (f : α → α)
  | front
  | back
  /-- Changes the last element, and hands back what it was. -/
  | changeBack (f : α → α)
  | reserve (k : Nat)
  | shrinkToFit
  | resize (k : Nat) (x : α)
  /-- Adds elements of which at least `expected` are promised beforehand. -/
  | extend (expected : Nat) (xs : List α)
  /-- Rewrites the elements one by one, as far as `xs` goes. -/
  | overwrite (xs : List α)

/-- What an operation hands back: an element or nothing, or an error if it was refused. -/
abbrev Answer (α : Type u) := Except Error (Option α)

variable {α : Type u} {n : Nat}

/-- The answer of an operation that hands nothing back. -/
def quiet (s : Sequence α n) : Answer α × Sequence α n := (.ok none, s)

/-- Hands back the element at position `i`, and changes it if `f?` says how; where there is
none, the error `e`. -/
def access (s : Sequence α n) (i : Nat) (e : Error) (f? : Option (α → α)) :
    Option (Answer α × Sequence α n) :=
  match s.get? i with
  | none => some (.error e, s)
  | some x =>
    match f? with
    | none => some (.ok (some x), s)
    | some f => do return (.ok (some x), ← s.modify? i f)

/-- What an operation hands back, and the sequence after it. -/
def Edit.run (s : Sequence α n) : Edit α → Option (Answer α × Sequence α n)
  | .push x => quiet <$> s.push x
  | .pushThen x f => do
    let pushed ← s.push x
    let y ← pushed.get? s.length
    return (.ok (some y), ← pushed.modify? s.length f)
  | .pop => do
    let (x?, s) ← s.pop
    return (.ok x?, s)
  | .insert i x => do
    let (r, s) ← s.insert i x
    return (r.map fun _ => none, s)
  | .insertAll i xs => do
    let (r, s) ← s.insertAll i xs
    return (r.map fun _ => none, s)
  | .remove i => do
    let (r, s) ← s.remove i
    return (r.map some, s)
  | .removeRange start stop => do
    let (r, s) ← s.removeRange start stop
    return (r.map fun _ => none, s)
  | .truncate k => quiet <$> s.truncate k
  | .clear => some (quiet s.clear)
  | .read i => s.access i (.indexOutOfRange i s.length) none
  | .change i f => s.access i (.indexOutOfRange i s.length) (some f)
  | .front => s.access 0 (.empty "front") none
  | .back => s.access (s.length - 1) (.empty "back") none
  | .changeBack f => s.access (s.length - 1) (.empty "back") (some f)
  | .reserve k => quiet <$> s.reserve k
  | .shrinkToFit => quiet <$> s.shrinkToFit
  | .resize k x => quiet <$> s.resize k x
  | .extend expected xs => quiet <$> s.extend expected xs
  | .overwrite xs => quiet <$> s.overwrite xs

end DeclAtlas.Sequence
