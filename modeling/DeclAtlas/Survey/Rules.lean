import DeclAtlas.Declaration.Basic
import DeclAtlas.HandlerTable

/-!
# The rules of a survey

What a survey does with each kind of declaration and each kind of type it meets, and its
two settings. The rules are data: a table says which rule goes with which kind, and
changing a table changes the survey.
-/

namespace DeclAtlas

/-- What a survey can be told. -/
structure SurveyOptions where
  /-- How many aliases are followed at most to find what a type stands for. -/
  maxAliasDepth : Nat := 16
  /-- Are methods and their parameters entered as well? -/
  modelMethods : Bool := false
deriving DecidableEq, Inhabited

namespace SurveyOptions

/-- The least number of aliases that can be asked for. -/
def minDepth : Nat := 1

/-- The greatest number of aliases that can be asked for. -/
def maxDepth : Nat := 64

/-- The options with the number of aliases brought into its bounds. -/
def normalize (o : SurveyOptions) : SurveyOptions :=
  { o with maxAliasDepth := max minDepth (min o.maxAliasDepth maxDepth) }

theorem normalize_bounds (o : SurveyOptions) :
    minDepth ≤ o.normalize.maxAliasDepth ∧ o.normalize.maxAliasDepth ≤ maxDepth := by
  simp only [normalize, minDepth, maxDepth]; omega

/-- A number within its bounds stays as it is. -/
theorem normalize_eq_self {o : SurveyOptions}
    (h : minDepth ≤ o.maxAliasDepth ∧ o.maxAliasDepth ≤ maxDepth) : o.normalize = o := by
  have hdepth : max minDepth (min o.maxAliasDepth maxDepth) = o.maxAliasDepth := by omega
  rw [normalize, hdepth]

end SurveyOptions

/-- What to do with a declaration. -/
inductive DeclarationRule where
  /-- Nothing. -/
  | ignore
  /-- Enter or refine a structure. -/
  | enterStructure
  /-- Add a parent to the enclosing structure. -/
  | addParent
  /-- Add a field to the enclosing structure. -/
  | addField
  /-- Add a method to the enclosing structure. -/
  | addMethod
  /-- Add a parameter to the enclosing method. -/
  | addParameter
deriving DecidableEq, Inhabited

/-- What to do with a type beyond entering it. -/
inductive TypeRule where
  /-- Nothing. -/
  | plain
  /-- Enter what it leads to or holds as its base. -/
  | element
  /-- Link it to its structure. -/
  | record
  /-- Enter what it stands for as its base. -/
  | typeAlias
  /-- Mark it as one that is not modelled, at every use. -/
  | enumeration
deriving DecidableEq, Inhabited

/-- Options and tables of a survey. -/
structure SurveyRules where
  options : SurveyOptions
  declarations : HandlerTable DeclarationKind DeclarationRule
  types : HandlerTable TypeKind TypeRule

namespace SurveyRules

/-- The usual rules for declarations. -/
def standardDeclarations : HandlerTable DeclarationKind DeclarationRule :=
  let table : HandlerTable DeclarationKind DeclarationRule := {}
  ((((table.registerAll [.structDecl, .classDecl] .enterStructure).register .baseSpecifier
    .addParent).register .field .addField).register .method .addMethod).register .parameter
    .addParameter |>.registerAll [.function, .namespaceDecl, .unsupported] .ignore
    |>.setFallback .ignore

/-- The usual rules for types. -/
def standardTypes : HandlerTable TypeKind TypeRule :=
  let table : HandlerTable TypeKind TypeRule := {}
  ((((table.registerAll TypeKind.primitives .plain).registerAll
    [.pointer, .lValueRef, .rValueRef, .constantArray, .incompleteArray] .element).register
    .struct .record).register .enum .enumeration).register .typedef .typeAlias
    |>.register .unhandled .plain |>.setFallback .plain

/-- The usual rules, with options brought into their bounds. -/
def standard (options : SurveyOptions := {}) : SurveyRules where
  options := options.normalize
  declarations := standardDeclarations
  types := standardTypes

end SurveyRules

end DeclAtlas
