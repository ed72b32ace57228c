import DeclAtlas.Declaration.TypeKind

/-!
# Built-in types

The spellings of the scalars, of `void` and of the type of the null pointer. The same
scalar has several spellings; no spelling has two kinds.

## Main results

* `keys_nodup`: every spelling occurs once.
-/

namespace DeclAtlas.Builtin

/-- Every built-in spelling with its kind. -/
def spellings : List (String × TypeKind) := [
  ("void", .void), ("bool", .bool), ("_Bool", .bool), ("char", .charS),
  ("signed char", .sChar), ("unsigned char", .uChar), ("char8_t", .uChar),
  ("wchar_t", .wChar), ("char16_t", .char16), ("char32_t", .char32),
  ("short", .short), ("short int", .short), ("signed short", .short),
  ("signed short int", .short), ("unsigned short", .uShort), ("unsigned short int", .uShort),
  ("int", .int), ("signed", .int), ("signed int", .int),
  ("unsigned", .uInt), ("unsigned int", .uInt),
  ("long", .long), ("long int", .long), ("signed long", .long), ("signed long int", .long),
  ("unsigned long", .uLong), ("unsigned long int", .uLong),
  ("long long", .longLong), ("long long int", .longLong), ("signed long long", .longLong),
  ("signed long long int", .longLong),
  ("unsigned long long", .uLongLong), ("unsigned long long int", .uLongLong),
  ("__int128", .int128), ("__int128_t", .int128),
  ("unsigned __int128", .uInt128), ("__uint128_t", .uInt128),
  ("float", .float), ("double", .double), ("long double", .longDouble),
  ("std::nullptr_t", .nullPtr), ("nullptr_t", .nullPtr), ("decltype(nullptr)", .nullPtr)]

/-- The kind of a built-in spelling. -/
def kind? (name : String) : Option TypeKind :=
  (spellings.find? fun p => p.1 = name).map (·.2)

/-- Every spelling occurs once. -/
theorem keys_nodup : (spellings.map (·.1)).Nodup := by decide +kernel

/-- Built-in spellings are those of primitive kinds. -/
theorem isPrimitive_of_kind? {name : String} {k : TypeKind} (h : kind? name = some k) :
    k.isPrimitive := by
  simp only [kind?, Option.map_eq_some_iff] at h
  obtain ⟨p, hp, rfl⟩ := h
  have hm : p ∈ spellings := List.mem_of_find?_eq_some hp
  have hall : ∀ q ∈ spellings, q.2.isPrimitive := by decide +kernel
  exact hall p hm

end DeclAtlas.Builtin
