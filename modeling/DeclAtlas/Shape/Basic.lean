import DeclAtlas.Declaration.TypeKind

/-!
# Shapes of types

A shape is a type taken apart into layers: pointers, references and arrays around a named
type at the core. What cannot be taken apart, a function type above all, is kept as it is
written.

## Main results

* `dimensions_eq_zero_iff`: a shape has no layers exactly when it has no inner shape.
* `named?_mapNamed`, `mapNamed_named`: renaming touches the core only.
-/

namespace DeclAtlas

/-- A type taken apart into layers. -/
inductive Shape where
  /-- The core: a name, as qualified as it was written. -/
  | named (name : String) (isConst : Bool)
  | pointer (inner : Shape) (isConst : Bool)
  | lValueRef (inner : Shape)
  | rValueRef (inner : Shape)
  /-- An array; without `extent` its length is open. -/
  | array (inner : Shape) (extent : Option String)
  /-- A spelling that is not taken apart. -/
  | verbatim (text : String)
deriving DecidableEq, Inhabited

namespace Shape

/-- What the outermost layer is. A name is not looked up here. -/
def kind : Shape → TypeKind
  | named .. => .unhandled
  | pointer .. => .pointer
  | lValueRef _ => .lValueRef
  | rValueRef _ => .rValueRef
  | array _ (some _) => .constantArray
  | array _ none => .incompleteArray
  | verbatim _ => .unhandled

/-- The shape under the outermost layer. -/
def inner? : Shape → Option Shape
  | pointer s _ | lValueRef s | rValueRef s | array s _ => some s
  | named .. | verbatim _ => none

/-- How many layers lie above the core. -/
def dimensions : Shape → Nat
  | pointer s _ | lValueRef s | rValueRef s | array s _ => s.dimensions + 1
  | named .. | verbatim _ => 0

/-- Is the outermost layer const? An array is as const as its elements. -/
def isConst : Shape → Bool
  | named _ c | pointer _ c => c
  | array s _ => s.isConst
  | lValueRef _ | rValueRef _ | verbatim _ => false

/-- The shape made const if `c`; the const of an array goes to its elements. -/
def withConst (c : Bool) : Shape → Shape
  | named n c' => named n (c' || c)
  | pointer s c' => pointer s (c' || c)
  | array s e => array (s.withConst c) e
  | s => s

/-- The name at the core. -/
def named? : Shape → Option String
  | named n _ => some n
  | pointer s _ | lValueRef s | rValueRef s | array s _ => s.named?
  | verbatim _ => none

/-- The shape with `f` applied to the core. -/
def mapNamed (f : String → Bool → Shape) : Shape → Shape
  | named n c => f n c
  | pointer s c => pointer (s.mapNamed f) c
  | lValueRef s => lValueRef (s.mapNamed f)
  | rValueRef s => rValueRef (s.mapNamed f)
  | array s e => array (s.mapNamed f) e
  | verbatim t => verbatim t

/-! ## Small lemmas -/

theorem dimensions_eq_zero_iff (s : Shape) : s.dimensions = 0 ↔ s.inner? = none := by
  cases s <;> simp [dimensions, inner?]

/-- Going inside takes one layer off. -/
theorem dimensions_inner {s t : Shape} (h : s.inner? = some t) :
    s.dimensions = t.dimensions + 1 := by
  cases s <;> simp_all [inner?, dimensions]

@[simp] theorem mapNamed_named (s : Shape) : s.mapNamed named = s := by
  induction s <;> simp_all [mapNamed]

/-- Renaming the core renames what stands at the core. -/
theorem named?_mapNamed (s : Shape) (f : String → String) :
    (s.mapNamed fun n c => named (f n) c).named? = s.named?.map f := by
  induction s <;> simp_all [mapNamed, named?]

end Shape

end DeclAtlas
