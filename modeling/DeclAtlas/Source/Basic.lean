import DeclAtlas.Declaration.Basic

/-!
# Sources of declarations

Where a survey takes its declarations from. A source is in some state; reading on yields
the next declaration and a new state, and everything else is a question that the state
answers: about the declaration read last, and about types as they are spelled.
-/

universe u

namespace DeclAtlas

/-- States of a stream of declarations, and what they know. -/
class DeclarationSource (σ : Type u) where
  /-- The next declaration, an empty one at the end, and the state after it. -/
  next : σ → Declaration × σ
  /-- The declarations around the one read last, outermost first. -/
  ancestors : σ → List Declaration
  /-- The declaration of a type, empty if there is none. -/
  typeDeclaration : σ → DeclaredType → Declaration
  /-- A type with one alias replaced by what it stands for. -/
  stripAlias : σ → DeclaredType → DeclaredType
  /-- What a pointer or reference leads to, or an array holds. -/
  element : σ → DeclaredType → DeclaredType
  /-- Is a type const? -/
  isConst : σ → DeclaredType → Bool
  /-- Who may use what is declared. -/
  visibility : σ → Declaration → Visibility
  /-- The type of a field or parameter, or the return type of a function. -/
  declaredType : σ → Declaration → DeclaredType
  /-- What else is said of a method. -/
  methodFlags : σ → Declaration → MethodFlags

end DeclAtlas
