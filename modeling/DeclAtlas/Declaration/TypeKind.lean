/-!
# Kinds of types

What a type is at its outermost layer: one of the built-in scalars, a pointer, reference
or array, something that was given a name, or none of these.

Every kind has a label, which is what an exported model shows; `ofLabel?` reads it back.
-/

namespace DeclAtlas

/-- What a type is at its outermost layer. -/
inductive TypeKind where
  | invalid | unhandled | void | bool | char | uChar | char16 | char32
  | uShort | uInt | uLong | uLongLong | uInt128 | charS | sChar | wChar
  | short | int | long | longLong | int128 | float | double | longDouble
  | nullPtr | pointer | lValueRef | rValueRef | struct | enum | typedef
  | constantArray | incompleteArray
deriving DecidableEq, Inhabited

namespace TypeKind

/-- How a kind is shown. -/
def label : TypeKind → String
  | invalid => "invalid"
  | unhandled => "unhandled"
  | void => "void"
  | bool => "bool"
  | char => "char"
  | uChar => "u_char"
  | char16 => "char16"
  | char32 => "char32"
  | uShort => "u_short"
  | uInt => "u_int"
  | uLong => "u_long"
  | uLongLong => "u_long_long"
  | uInt128 => "u_int128"
  | charS => "char_s"
  | sChar => "s_char"
  | wChar => "w_char"
  | short => "short"
  | int => "int"
  | long => "long"
  | longLong => "long_long"
  | int128 => "int128"
  | float => "float"
  | double => "double"
  | longDouble => "long_double"
  | nullPtr => "null_ptr"
  | pointer => "pointer"
  | lValueRef => "l_value_ref"
  | rValueRef => "r_value_ref"
  | struct => "struct"
  | enum => "enum"
  | typedef => "typedef"
  | constantArray => "constant_array"
  | incompleteArray => "incomplete_array"

/-- The built-in scalars, `void` and the type of the null pointer. -/
def primitives : List TypeKind :=
  [void, bool, char, uChar, char16, char32, uShort, uInt, uLong, uLongLong, uInt128, charS,
   sChar, wChar, short, int, long, longLong, int128, float, double, longDouble, nullPtr]

/-- Every kind. -/
def all : List TypeKind :=
  [invalid, unhandled] ++ primitives ++
    [pointer, lValueRef, rValueRef, struct, enum, typedef, constantArray, incompleteArray]

/-- The kind with a label. -/
def ofLabel? (s : String) : Option TypeKind := all.find? (·.label = s)

/-- Is this a built-in scalar, `void` or the type of the null pointer? -/
def isPrimitive (k : TypeKind) : Bool := primitives.contains k

/-- Does this kind lead to another type through an address? -/
def isReferenceLike : TypeKind → Bool
  | pointer | lValueRef | rValueRef => true
  | _ => false

/-- Is this an array, of known or unknown extent? -/
def isArray : TypeKind → Bool
  | constantArray | incompleteArray => true
  | _ => false

end TypeKind

/-- A type as it is used somewhere, before it is entered anywhere. -/
structure DeclaredType where
  /-- Its spelling. -/
  identifier : String := ""
  isConst : Bool := false
  kind : TypeKind := .invalid
  /-- How many pointer, reference and array layers lie above the named type. -/
  dimensions : Nat := 0
deriving DecidableEq, Inhabited

end DeclAtlas
