import DeclAtlas.Proofs.Dump.Overloads
import DeclAtlas.Proofs.Shape.Signatures

/-!
# Functions by their signatures

What the stream says of a function is read off the spelling of its type: the return type and
whether it is `const`. Both are as the signature has them, however the parameters are nested
and whatever other qualifiers there are, as long as no `noexcept` has a condition. With a
condition the type is cut there: the qualifiers before it are lost, and the return type has
all that stands before the condition.

## Main results

* `mem_entries_of_function?`: a function with a name is on the stream.
* `signature_read`: what is read off a signature.
* `signature_misread`: a method that is `const` and has a condition is not put down as `const`.
-/

namespace DeclAtlas.Dump

open FunctionType (Balanced Lists Qualifier split? split?_eq_iff split?_of_unconditional
  split?_of_conditional)
open Text (trim trimChars)

variable {input type returnType qualifiers : String} {root : Node} {v : Stop} {e : StreamEntry}
  {qs : List Qualifier}

/-- A function with a name is on the stream, unless it is from a system header. -/
theorem mem_entries_of_function? {role : FunctionRole} {head : Head} {facts : FunctionFacts}
    (hv : v ∈ Stop.ofTree input root) (hp : v.node.payload = .function role head facts)
    (hplace : isSystem input head.location = false) (hf : v.function? input = some e) :
    e ∈ (Walk.ofTree input root).entries.toList := by
  rw [entries_ofTree, List.mem_flatMap]
  refine ⟨v, hv, ?_⟩
  unfold Stop.function? at hf
  rw [hp] at hf
  dsimp only at hf
  split at hf
  · cases hf
  · rename_i himp
    obtain ⟨name, hname, rfl⟩ := Option.map_eq_some_iff.1 hf
    unfold Stop.entries walkStep
    rw [hp]
    dsimp only
    unfold Walk.function
    rw [hname]
    dsimp only
    rw [if_neg himp]
    unfold Walk.within
    dsimp only
    rw [(Walk.Apart.parameters ..).entries]
    unfold Walk.push
    rw [hplace]
    exact List.mem_append_left _ List.mem_cons_self

/-- Functions whose type is spelled like this are on the stream with that return type, and
are put down as `const` exactly if these qualifiers say so. -/
def ReadAs (type returnType : String) (qs : List Qualifier) : Prop :=
  ∀ {input : String} {root : Node} {v : Stop} {role : FunctionRole} {head : Head}
    {facts : FunctionFacts} {name : String}, v ∈ Stop.ofTree input root →
    v.node.payload = .function role head facts → facts.type = some type →
    head.name = some name → head.isImplicit = false → isSystem input head.location = false →
    ∃ e ∈ (Walk.ofTree input root).entries.toList, v.function? input = some e ∧
      e.declaration.identifier = name ∧ e.spelling = some returnType ∧
      (e.flags.isConst = true ↔ .const ∈ qs)

/-- What is on the stream is what the type is split into. -/
theorem readAs_of_split (hsplit : split? type = some (returnType, trim qualifiers))
    (hlists : Lists qs qualifiers.toList) (hqs : ∀ q ∈ qs, q.condition? = none) :
    ReadAs type returnType qs := by
  intro input root v role head facts name hv hp htype hname himp hplace
  have hconst : "const".toList ∈ Text.words (trim qualifiers).toList ↔ Qualifier.const ∈ qs := by
    rw [trim, String.toList_ofList]
    exact hlists.const_mem_words hqs
  obtain ⟨e, hf, hidentifier, hspelling, hflag⟩ : ∃ e, v.function? input = some e ∧
      e.declaration.identifier = name ∧ e.spelling = some returnType ∧
      (e.flags.isConst = true ↔ Qualifier.const ∈ qs) := by
    unfold Stop.function?
    rw [hp]
    dsimp only
    rw [himp, htype, hname, Option.getD_some, hsplit, if_neg Bool.false_ne_true]
    refine ⟨_, rfl, rfl, rfl, ?_⟩
    rw [List.contains_iff_mem]
    exact hconst
  exact ⟨e, mem_entries_of_function? hv hp hplace hf, hf, hidentifier, hspelling, hflag⟩

/-- Return type and qualifiers of a signature are found, for whatever parameters, exactly if
no qualifier has a condition. Otherwise the last condition is taken for the parameters. The
functions on the stream have the return type and the constness that are found. -/
theorem signature_read {R P Q : String} {qs : List Qualifier} (hP : Balanced P)
    (hQ : Lists qs Q.toList) (hconditions : ∀ q ∈ qs, ∀ e ∈ q.condition?, Balanced e) :
    (split? (R ++ "(" ++ P ++ ")" ++ Q) = some (trim R, trim Q) ↔
      ∀ q ∈ qs, q.condition? = none) ∧
    ((∀ q ∈ qs, q.condition? = none) → ReadAs (R ++ "(" ++ P ++ ")" ++ Q) (trim R) qs) ∧
    ∀ ps e rs, qs = ps ++ .noexceptIf e :: rs → (∀ q ∈ rs, q.condition? = none) →
      ∃ front back, Q = front ++ "noexcept(" ++ e ++ ")" ++ back ∧ Lists rs back.toList ∧
        split? (R ++ "(" ++ P ++ ")" ++ Q) =
          some (trim (R ++ "(" ++ P ++ ")" ++ front ++ "noexcept"), trim back) ∧
        ReadAs (R ++ "(" ++ P ++ ")" ++ Q)
          (trim (R ++ "(" ++ P ++ ")" ++ front ++ "noexcept")) rs := by
  refine ⟨split?_eq_iff R hP hQ hconditions, fun hnone => ?_, ?_⟩
  · exact readAs_of_split (split?_of_unconditional R hP hQ hnone) hQ hnone
  · rintro ps e rs rfl hrs
    have he : Balanced e := hconditions (.noexceptIf e) (by simp) e rfl
    obtain ⟨front, back, hfront, hback, hcut⟩ := split?_of_conditional R P hQ he hrs
    exact ⟨front, back, hfront, hback, hcut, readAs_of_split hcut hback hrs⟩

/-- A method whose type is spelled like this. -/
def Node.methodOf (type : String) : Node :=
  .mk (.function .member { name := some "f" } { type := some type }) []

/-- A struct with one such method. -/
def Node.structOf (type : String) : Node :=
  .mk (.record { name := some "S" } { isDefinition := true }) [.methodOf type]

theorem stops_structOf (type : String) :
    Stop.ofTree "s.hpp" (.structOf type) = [⟨[], .invalid, .structOf type⟩,
      ⟨[declare "s.hpp" [] .structDecl { name := some "S" } "S"], .publicAccess, .methodOf type⟩] :=
  rfl

theorem signature_read_callback :
    Balanced "void (*)(int), int" ∧
    Lists [.const, .lvalue, .noexcept] " const & noexcept".toList ∧
    split? ("int " ++ "(" ++ "void (*)(int), int" ++ ")" ++ " const & noexcept") =
      some ("int", "const & noexcept") ∧
    ∃ e ∈ (Walk.ofTree "s.hpp"
        (.structOf "int (void (*)(int), int) const & noexcept")).entries.toList,
      e.declaration.qualifiedName = "S::f" ∧ e.spelling = some "int" ∧
        e.flags.isConst = true := by
  have hparameters : Balanced "void (*)(int), int" := by decide
  have hlists : Lists [.const, .lvalue, .noexcept] " const & noexcept".toList :=
    Lists.of_spaces [.const, .lvalue, .noexcept]
  have hnone : ∀ q ∈ [Qualifier.const, .lvalue, .noexcept], q.condition? = none := by decide
  obtain ⟨hsplit, hread, -⟩ := signature_read (R := "int ") hparameters hlists fun q hq e he => by
    rw [hnone q hq] at he
    cases he
  have hstop := stops_structOf ("int " ++ "(" ++ "void (*)(int), int" ++ ")" ++ " const & noexcept")
  obtain ⟨e, he, hf, -, hreturn, hconst⟩ :=
    hread hnone (hstop ▸ List.mem_cons_of_mem _ List.mem_cons_self) rfl rfl rfl rfl rfl
  refine ⟨hparameters, hlists, hsplit.2 hnone, e, he, ?_, hreturn, hconst.2 (by decide)⟩
  cases hf
  rfl

/-- With a condition, neither `const` nor the return type of this method is found. -/
theorem signature_misread :
    Balanced "" ∧ Balanced "true" ∧
    Lists [.const, .noexceptIf "true"] " const noexcept(true)".toList ∧
    split? ("void " ++ "(" ++ "" ++ ")" ++ " const noexcept(true)") ≠
      some (trim "void ", trim " const noexcept(true)") ∧
    ∃ e ∈ (Walk.ofTree "s.hpp" (.structOf "void () const noexcept(true)")).entries.toList,
      e.declaration.qualifiedName = "S::f" ∧ e.spelling = some "void () const noexcept" ∧
        e.flags.isConst = false := by
  have hlists : Lists [.const, .noexceptIf "true"] " const noexcept(true)".toList :=
    Lists.of_spaces [.const, .noexceptIf "true"]
  exact ⟨by decide, by decide, hlists, by decide, by decide⟩

end DeclAtlas.Dump
