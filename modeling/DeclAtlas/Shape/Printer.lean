import DeclAtlas.Shape.Basic

/-!
# Spelling a shape

The canonical spelling of a shape: `const char *`, `int **const`, `float[4][2]`. A pointer
or reference mark stands apart from a name and directly after another mark; the extents of
nested arrays stand in a row, outermost first.
-/

namespace DeclAtlas.Shape

/-- `mark` after what it applies to, with a space unless another mark ends it. -/
def attach (mark inner : List Char) : List Char :=
  match inner.getLast? with
  | some '*' | some '&' => inner ++ mark
  | _ => inner ++ ' ' :: mark

/-- The extent of an array in its brackets. -/
def brackets (extent : Option String) : List Char :=
  '[' :: (extent.getD "").toList ++ [']']

/--
The spelling of a shape inside arrays whose extents are already spelled. An array adds its
own extent to them and leaves the rest to its elements, so the extents of nested arrays
come to stand in a row after the core.
-/
def spell : Shape → (extents : List Char) → List Char
  | named name isConst, e => (if isConst then "const ".toList else []) ++ name.toList ++ e
  | pointer s isConst, e =>
    attach (if isConst then "*const".toList else ['*']) (spell s []) ++ e
  | lValueRef s, e => attach ['&'] (spell s []) ++ e
  | rValueRef s, e => attach ['&', '&'] (spell s []) ++ e
  | array s extent, e => spell s (e ++ brackets extent)
  | verbatim text, e => text.toList ++ e

/-- The canonical spelling of a shape. -/
def render (s : Shape) : String := String.ofList (spell s [])

/-! ## Small lemmas -/

@[simp] theorem render_named (name : String) (c : Bool) :
    (named name c).render = (if c then "const " else "") ++ name := by
  rw [← String.toList_inj, render, String.toList_ofList, String.toList_append]
  cases c <;> exact List.append_nil _

@[simp] theorem render_verbatim (text : String) : (verbatim text).render = text := by
  rw [render, spell, List.append_nil, String.ofList_toList]

/-- Outside an array, the extents follow the spelling. -/
theorem spell_eq_append {s : Shape} (h : ∀ t e, s ≠ array t e) (extents : List Char) :
    spell s extents = spell s [] ++ extents := by
  cases s with
  | array t e => exact absurd rfl (h t e)
  | named | pointer | lValueRef | rValueRef | verbatim =>
    rw [spell, spell, List.append_nil]

example : (array (array (named "float" false) (some "2")) (some "4")).render =
    "float[4][2]" := by decide

end DeclAtlas.Shape
