import DeclAtlas.Proofs.Dump.Unfolding
import DeclAtlas.Survey.Resolve
import Mathlib.Logic.Function.Iterate

/-!
# What aliases stand for in the end

If no alias leads back to itself, what a type stands for is reached by replacing aliases until
there is none left. This is its expansion. Replacing one alias at the core of a type keeps it,
since a const is put around a replaced core in the end as well as at once.

A survey follows the aliases of a type one by one, but not past a form of kind `typedef`. As
long as each form is read back from its spelling it follows them to the expansion, provided it
meets no such form on its way. Forms with a layer are of no such kind, and neither is a name
that is no alias.

Between the two falls an alias with the name of a built-in type. Its kind is that of the built-in
type, since for a kind the built-in types are asked first; but only the table is asked for
aliases, so it is replaced all the same. Where what it stands for is of kind `typedef`, the
survey stops halfway.

## Main results

* `expand_eq`: the expansion replaces every alias by the expansion of its target.
* `expand_substituteAlias`: replacing one alias keeps the expansion.
* `canonical_expand`: when the canonical form of a type is its expansion.
* `stopped_builtinDump`: an alias with a built-in name whose canonical form is not its expansion.
-/

namespace DeclAtlas.Dump.Source

open Shape (parse)
open Survey

variable {names : NameTable} {a : String} {s t : Shape} {k : Nat}

/-! ## Expansions -/

/-- No alias leads back to itself. -/
def Acyclic (names : NameTable) : Prop := ∀ a, ¬LeadsOn names a a

/-- A name with the aliases at its core replaced, at most so many of them. -/
def expandName (names : NameTable) : Nat → String → Bool → Shape
  | 0, a, c => .named a c
  | n + 1, a, c =>
    match aliasTarget? names a with
    | some t => (t.mapNamed (expandName names n)).withConst c
    | none => .named a c

/-- A shape with all aliases at its core replaced. -/
def expand (names : NameTable) (s : Shape) : Shape :=
  s.mapNamed (expandName names names.names.length)

theorem expandName_of_not_alias (h : aliasTarget? names a = none) (n : Nat) (c : Bool) :
    expandName names n a c = .named a c := by
  cases n with
  | zero => rfl
  | succ n => rw [expandName, h]

theorem expandName_succ (h : aliasTarget? names a = some t) (n : Nat) (c : Bool) :
    expandName names (n + 1) a c = (t.mapNamed (expandName names n)).withConst c := by
  rw [expandName, h]

/-- There are no more aliases to replace than there are names. -/
theorem expandName_stable (h : Acyclic names) (a : String) (c : Bool) :
    expandName names (names.names.length + 1) a c =
      expandName names names.names.length a c := by
  refine alias_induct
    (P := fun n a => ∀ c, expandName names (n + 1) a c = expandName names n a c) ?_ ?_ ?_ a c
  · exact fun n a hcircle => absurd hcircle (h a)
  · intro n a ha c
    rw [expandName_of_not_alias ha, expandName_of_not_alias ha]
  · intro n a t ha ih c
    rw [expandName_succ ha, expandName_succ ha,
      Shape.mapNamed_congr fun b c hb => ih b hb c]

/-- The expansion replaces every alias by the expansion of its target. -/
theorem expand_eq (h : Acyclic names) (s : Shape) :
    expand names s = s.mapNamed fun a c =>
      match aliasTarget? names a with
      | some t => (expand names t).withConst c
      | none => .named a c :=
  Shape.mapNamed_congr fun a c _ => (expandName_stable h a c).symm

theorem expand_of_not_alias (h : ∀ a ∈ s.named?, aliasTarget? names a = none) :
    expand names s = s :=
  Shape.mapNamed_eq_self fun a c ha => expandName_of_not_alias (h a ha) _ c

/-- A const of a name is put around what replaces it. -/
theorem expandName_or (n : Nat) (a : String) (c c' : Bool) :
    expandName names n a (c || c') = (expandName names n a c).withConst c' := by
  cases ha : aliasTarget? names a with
  | none => rw [expandName_of_not_alias ha, expandName_of_not_alias ha, Shape.withConst]
  | some t =>
      cases n with
      | zero => rfl
      | succ n => rw [expandName_succ ha, expandName_succ ha, Shape.withConst_withConst]

/-- Replacing one alias keeps the expansion. -/
theorem expand_substituteAlias (h : Acyclic names) (s : Shape) :
    expand names (substituteAlias names s) = expand names s := by
  rw [expand, substituteAlias, Shape.mapNamed_mapNamed]
  refine Shape.mapNamed_congr fun a c _ => ?_
  cases ha : aliasTarget? names a with
  | none => rfl
  | some t =>
      rw [← expandName_stable h, expandName_succ ha]
      exact Shape.mapNamed_withConst (expandName_or _) t c

/-! ## Chains of aliases -/

/-- How many aliases are met from a name on, among the first `n`. -/
def linksFrom (names : NameTable) : Nat → String → Nat
  | 0, _ => 0
  | n + 1, a =>
    match aliasTarget? names a with
    | some t => (t.named?.map (linksFrom names n)).getD 0 + 1
    | none => 0

/-- How many aliases have to be replaced one by one to expand a shape. -/
def links (names : NameTable) (s : Shape) : Nat :=
  (s.named?.map (linksFrom names names.names.length)).getD 0

theorem linksFrom_of_not_alias (h : aliasTarget? names a = none) (n : Nat) :
    linksFrom names n a = 0 := by
  cases n with
  | zero => rfl
  | succ n => rw [linksFrom, h]

theorem linksFrom_succ (h : aliasTarget? names a = some t) (n : Nat) :
    linksFrom names (n + 1) a = (t.named?.map (linksFrom names n)).getD 0 + 1 := by
  rw [linksFrom, h]

theorem linksFrom_stable (h : Acyclic names) (a : String) :
    linksFrom names (names.names.length + 1) a = linksFrom names names.names.length a := by
  refine alias_induct (P := fun n a => linksFrom names (n + 1) a = linksFrom names n a) ?_ ?_ ?_ a
  · exact fun n a hcircle => absurd hcircle (h a)
  · intro n a ha
    rw [linksFrom_of_not_alias ha, linksFrom_of_not_alias ha]
  · intro n a t ha ih
    rw [linksFrom_succ ha, linksFrom_succ ha]
    cases hb : t.named? with
    | none => rfl
    | some b => rw [Option.map_some, Option.map_some, ih b hb]

/-- Aliases are acyclic if one more step from any of them meets no further alias. -/
theorem acyclic_iff : Acyclic names ↔ ∀ p ∈ names.names,
    linksFrom names (names.names.length + 1) p.1 = linksFrom names names.names.length p.1 := by
  refine ⟨fun h p _ => linksFrom_stable h p.1, fun hall => ?_⟩
  have hlink : ∀ {a t b}, aliasTarget? names a = some t → t.named? = some b →
      linksFrom names names.names.length a = linksFrom names names.names.length b + 1 := by
    intro a t b ha hb
    obtain ⟨p, hp, rfl, -⟩ := aliasTarget_mem ha
    rw [← hall p hp, linksFrom_succ ha, hb]
    rfl
  have hle : ∀ {a k b}, Leads names a k b →
      linksFrom names names.names.length b ≤ linksFrom names names.names.length a := by
    intro a k b hleads
    induction hleads with
    | refl a => exact Nat.le_refl _
    | step ha hb _ ih => exact ih.trans (hlink ha hb ▸ Nat.le_succ _)
  rintro a ⟨t, b, k, ha, hb, hleads⟩
  have hback := hle hleads
  have hnext := hlink ha hb
  omega

instance (names : NameTable) : Decidable (Acyclic names) :=
  decidable_of_iff _ acyclic_iff.symm

theorem links_of_not_alias (h : ∀ a ∈ s.named?, aliasTarget? names a = none) :
    links names s = 0 := by
  cases hn : s.named? with
  | none => rw [links, hn]; rfl
  | some a =>
      rw [links, hn]
      exact linksFrom_of_not_alias (h a hn) _

/-- Replacing an alias leaves one less to be replaced. -/
theorem links_substituteAlias (h : Acyclic names) (hn : s.named? = some a)
    (ha : aliasTarget? names a = some t) :
    links names s = links names (substituteAlias names s) + 1 := by
  have hcore : (substituteAlias names s).named? = t.named? := by
    obtain ⟨c, hc⟩ := Shape.exists_core hn
    rw [substituteAlias, (hc _).1, ha]
    exact Shape.named?_withConst t c
  rw [links, hn, Option.map_some, Option.getD_some, ← linksFrom_stable h, linksFrom_succ ha,
    links, hcore]

/-- If there is an alias left, one is replaced, and if there is none, nothing. -/
theorem substituteAlias_cases (h : Acyclic names) (s : Shape) :
    (links names s = 0 ∧ substituteAlias names s = s ∧ expand names s = s) ∨
      links names s = links names (substituteAlias names s) + 1 := by
  cases hn : s.named? with
  | none =>
      have hend : ∀ a ∈ s.named?, aliasTarget? names a = none := by simp [hn]
      exact .inl ⟨links_of_not_alias hend, substituteAlias_of_not_alias hend,
        expand_of_not_alias hend⟩
  | some a =>
      cases ha : aliasTarget? names a with
      | none =>
          have hend : ∀ b ∈ s.named?, aliasTarget? names b = none := by
            intro b hb
            rwa [← Option.some.inj (hn.symm.trans hb)]
          exact .inl ⟨links_of_not_alias hend, substituteAlias_of_not_alias hend,
            expand_of_not_alias hend⟩
      | some t => exact .inr (links_substituteAlias h hn ha)

/-! ## Forms -/

/-- A shape with `k` aliases replaced one by one. -/
def form (names : NameTable) (s : Shape) (k : Nat) : Shape := (substituteAlias names)^[k] s

theorem form_succ (names : NameTable) (s : Shape) (k : Nat) :
    form names s (k + 1) = substituteAlias names (form names s k) :=
  Function.iterate_succ_apply' _ k s

theorem form_substituteAlias (names : NameTable) (s : Shape) (k : Nat) :
    form names (substituteAlias names s) k = form names s (k + 1) :=
  (Function.iterate_succ_apply _ k s).symm

theorem expand_form (h : Acyclic names) (s : Shape) (k : Nat) :
    expand names (form names s k) = expand names s := by
  induction k with
  | zero => rfl
  | succ k ih => rw [form_succ, expand_substituteAlias h, ih]

theorem links_form (h : Acyclic names) (s : Shape) (k : Nat) :
    links names (form names s k) = links names s - k := by
  induction k with
  | zero => rfl
  | succ k ih =>
      rw [form_succ]
      rcases substituteAlias_cases h (form names s k) with ⟨hzero, hsame, -⟩ | hnext
      · rw [hsame, hzero]
        omega
      · omega

/-- When all aliases are replaced the expansion is reached, and nothing changes any more. -/
theorem form_of_links_le (h : Acyclic names) (hk : links names s ≤ k) :
    form names s k = expand names s := by
  have hzero : links names (form names s k) = 0 := by
    rw [links_form h]
    omega
  rcases substituteAlias_cases h (form names s k) with ⟨-, -, hself⟩ | hnext
  · rw [← hself, expand_form h]
  · omega

/-- Before that no form is the expansion. -/
theorem ne_expand_of_links (h : Acyclic names) (hs : links names s ≠ 0) :
    s ≠ expand names s := by
  intro heq
  have hlinks := links_form h s (links names s)
  rw [form_of_links_le h le_rfl, ← heq, Nat.sub_self] at hlinks
  exact hs hlinks

/-- If the forms are read back up to the expansion, all are. -/
theorem parse_render_form (h : Acyclic names)
    (hread : ∀ k ≤ links names s, parse (form names s k).render = form names s k) (k : Nat) :
    parse (form names s k).render = form names s k := by
  rcases le_total k (links names s) with hk | hk
  · exact hread k hk
  · have hlast := hread _ le_rfl
    rwa [form_of_links_le h le_rfl, ← form_of_links_le h hk] at hlast

/-! ## Kinds of forms -/

theorem kind_of_inner (h : s.inner? = some t) : (toDeclared names s).kind ≠ .typedef := by
  cases s with
  | named | verbatim => exact nomatch h
  | pointer | lValueRef | rValueRef => exact nofun
  | array s e => cases e <;> exact nofun

/-- Going on from a form with a layer, all forms have one. -/
theorem exists_inner_form (h : s.inner? = some t) (k : Nat) :
    ∃ u, (form names s k).inner? = some u := by
  induction k with
  | zero => exact ⟨t, h⟩
  | succ k ih =>
      obtain ⟨u, hu⟩ := ih
      rw [form_succ, substituteAlias]
      exact ⟨_, Shape.inner?_mapNamed hu _⟩

/-- A name of another kind is no alias unless it is built in. -/
theorem kind_form_ne (hk : (toDeclared names s).kind ≠ .typedef)
    (hb : ∀ a c, s = .named a c → Builtin.kind? a = none) (hlt : k < links names s) :
    (toDeclared names (form names s k)).kind ≠ .typedef := by
  cases hi : s.inner? with
  | some t =>
      have hform : ∃ u, (form names s k).inner? = some u := exists_inner_form hi k
      obtain ⟨u, hu⟩ := hform
      exact kind_of_inner hu
  | none =>
      have hzero : links names s = 0 := by
        refine links_of_not_alias fun a ha => ?_
        cases s with
        | pointer | lValueRef | rValueRef | array => exact nomatch hi
        | verbatim => exact nomatch ha
        | named b c =>
            obtain rfl : b = a := Option.some.inj ha
            cases ht : aliasTarget? names b with
            | none => rfl
            | some t =>
                obtain ⟨d, target, scope, hget, -⟩ := exists_of_aliasTarget ht
                have htypedef : (toDeclared names (.named b c)).kind = .typedef := by
                  simp only [toDeclared, namedKind, hb b c rfl, hget]
                exact absurd htypedef hk
      omega

/-! ## Canonical forms -/

/-- A form that is read back tells by its spelling whether it is the expansion. -/
theorem render_eq_expand_iff (h : Acyclic names)
    (hread : ∀ k, parse (form names s k).render = form names s k) :
    s.render = (expand names s).render ↔ links names s = 0 := by
  have hself : parse s.render = s := hread 0
  have hlast := hread (links names s)
  rw [form_of_links_le h le_rfl] at hlast
  constructor
  · intro heq
    by_contra hlinks
    rw [heq, hlast] at hself
    exact ne_expand_of_links h hlinks hself.symm
  · intro hlinks
    rw [← form_of_links_le h hlinks.le]
    rfl

/-- Following aliases ends at the expansion if no form on the way is of kind `typedef`. -/
theorem followAliases_expand (h : Acyclic names) {bound : Nat} (hbound : links names s ≤ bound)
    (hread : ∀ k, parse (form names s k).render = form names s k) :
    (followAliases (stripAlias names) bound (toDeclared names s)).identifier =
        (expand names s).render ↔
      ∀ k < links names s, (toDeclared names (form names s k)).kind ≠ .typedef := by
  induction bound generalizing s with
  | zero =>
      have hzero : links names s = 0 := Nat.le_zero.1 hbound
      exact iff_of_true ((render_eq_expand_iff h hread).2 hzero) fun k hlt => by omega
  | succ bound ih =>
      have hstay : (toDeclared names s).identifier = (expand names s).render ↔
          links names s = 0 := render_eq_expand_iff h hread
      have hstep : stripAlias names (toDeclared names s) =
          toDeclared names (substituteAlias names s) := stripAlias_of_parse_render (hread 0)
      by_cases hk : (toDeclared names s).kind = .typedef
      · rw [followAliases_typedef hk, hstay]
        refine ⟨fun hzero k hlt => by omega, fun hall => ?_⟩
        by_contra hlinks
        exact hall 0 (Nat.pos_of_ne_zero hlinks) hk
      rcases substituteAlias_cases h s with ⟨hzero, hsame, -⟩ | hnext
      · rw [followAliases_fixed (by rw [hstep, hsame]), hstay]
        exact ⟨fun _ k hlt => by omega, fun _ => hzero⟩
      · have hmoves : stripAlias names (toDeclared names s) ≠ toDeclared names s := by
          intro heq
          rw [hstep] at heq
          have hrender : (substituteAlias names s).render = s.render :=
            congrArg DeclaredType.identifier heq
          have hfirst : parse (substituteAlias names s).render = substituteAlias names s :=
            hread 1
          have hsame : substituteAlias names s = s := by
            rw [← hfirst, hrender]
            exact hread 0
          rw [hsame] at hnext
          omega
        have hread' : ∀ k, parse (form names (substituteAlias names s) k).render =
            form names (substituteAlias names s) k := by
          intro k
          rw [form_substituteAlias]
          exact hread (k + 1)
        rw [followAliases_step hk hmoves, hstep, ← expand_substituteAlias h s,
          ih (by omega) hread', hnext]
        simp only [form_substituteAlias]
        constructor
        · intro hall k hlt
          cases k with
          | zero => exact hk
          | succ k => exact hall k (Nat.lt_of_succ_lt_succ hlt)
        · exact fun hall k hlt => hall (k + 1) (Nat.succ_lt_succ hlt)

/-- Each step from the type of an entry keeps its expansion, if all forms are read back. With
no more aliases than are followed, the canonical form is the expansion just if no form before
it is of kind `typedef`; this holds if the type is of another kind, unless it is the bare name
of a built-in type. -/
theorem canonical_expand {rules : SurveyRules} {src : Source} {e : StreamEntry} {t : String}
    (hacyclic : Acyclic src.names) (ht : e.spelling = some t) (hne : t ≠ "")
    (hs : qualify src.names e.scope (parse t) = s)
    (hread : ∀ k, parse (form src.names s k).render = form src.names s k) :
    (∀ k, stripAlias src.names (toDeclared src.names (form src.names s k)) =
        toDeclared src.names (form src.names s (k + 1)) ∧
      expand src.names (form src.names s (k + 1)) = expand src.names (form src.names s k)) ∧
    (links src.names s ≤ rules.options.maxAliasDepth →
      ((canonical rules src (declaredTypeOf src.names e)).identifier =
          (expand src.names s).render ↔
        ∀ k < links src.names s, (toDeclared src.names (form src.names s k)).kind ≠ .typedef) ∧
      ((declaredTypeOf src.names e).kind ≠ .typedef →
        (∀ a c, s = .named a c → Builtin.kind? a = none) →
        (canonical rules src (declaredTypeOf src.names e)).identifier =
          (expand src.names s).render)) := by
  have hd : declaredTypeOf src.names e = toDeclared src.names s := by
    rw [declaredTypeOf_eq ht hne, hs]
  constructor
  · intro k
    rw [expand_form hacyclic, expand_form hacyclic, form_succ]
    exact ⟨stripAlias_of_parse_render (hread k), rfl⟩
  · intro hdepth
    have hiff := followAliases_expand hacyclic hdepth hread
    rw [hd]
    exact ⟨hiff, fun hk hb => hiff.2 fun k hlt => kind_form_ne hk hb hlt⟩

/-- An alias as it stands in a dump. -/
def aliasValue (name target : String) : Json.Value :=
  .record [("kind", .text "TypedefDecl"), ("name", .text name),
    ("type", .record [("qualType", .text target)])]

/-- A struct with one field, as it stands in a dump. -/
def structValue (field type : String) : Json.Value :=
  .record [("kind", .text "CXXRecordDecl"), ("name", .text "S"), ("tagUsed", .text "struct"),
    ("completeDefinition", .bool true), ("inner", .array [
      .record [("kind", .text "FieldDecl"), ("name", .text field),
        ("type", .record [("qualType", .text type)])]])]

/-- A field that is typed by an alias of an array with aliased elements. -/
def rowDump : Json.Value :=
  .record [("kind", .text "TranslationUnitDecl"), ("inner", .array [
    .record [("kind", .text "NamespaceDecl"), ("name", .text "N"), ("inner", .array [
      aliasValue "Cell" "unsigned char", aliasValue "Row" "Cell *[2]"])],
    structValue "row" "const N::Row &"])]

/-- The type of the field, with the name looked up. -/
def rowShape : Shape := .lValueRef (.named "N::Row" true)

theorem canonical_expand_rowDump : ∃ src, ofJson? "row.hpp" rowDump = some src ∧
    Acyclic src.names ∧ ∃ e ∈ src.cursor.toList, e.spelling = some "const N::Row &" ∧
      qualify src.names e.scope (parse "const N::Row &") = rowShape ∧
      (∀ k, parse (form src.names rowShape k).render = form src.names rowShape k) ∧
      links src.names rowShape = 2 ∧
      (declaredTypeOf src.names e).kind = .lValueRef ∧
      (canonical .standard src (declaredTypeOf src.names e)).identifier =
        "unsigned char *const[2] &" := by
  have hall : ∃ src ∈ ofJson? "row.hpp" rowDump, Acyclic src.names ∧
      ∃ e ∈ src.cursor.toList, e.spelling = some "const N::Row &" ∧
        qualify src.names e.scope (parse "const N::Row &") = rowShape ∧
        (∀ k < 3, parse (form src.names rowShape k).render = form src.names rowShape k) ∧
        links src.names rowShape = 2 ∧
        (declaredTypeOf src.names e).kind = .lValueRef ∧
        (expand src.names rowShape).render = "unsigned char *const[2] &" := by
    decide +kernel
  obtain ⟨src, hv, hacyclic, e, he, ht, hs, hread, hlinks, hkind, hexpand⟩ := hall
  have hforms := parse_render_form hacyclic fun k hk => hread k (by omega)
  have hdepth : links src.names rowShape ≤ (SurveyRules.standard).options.maxAliasDepth := by
    rw [hlinks]
    decide
  obtain ⟨-, hcanonical⟩ := canonical_expand hacyclic ht (by decide) hs hforms
  have hend := (hcanonical hdepth).2 (by rw [hkind]; decide) fun a c h => nomatch h
  exact ⟨src, hv, hacyclic, e, he, ht, hs, hforms, hlinks, hkind, hend.trans hexpand⟩

/-- A field that is typed by an alias with the name of a built-in type. -/
def builtinDump : Json.Value :=
  .record [("kind", .text "TranslationUnitDecl"), ("inner", .array [
    aliasValue "uint16" "unsigned short", aliasValue "char16_t" "uint16",
    structValue "c" "char16_t"])]

def builtinShape : Shape := .named "char16_t" false

/-- The kind of the field's type is that of the built-in type, not `typedef`, and two aliases
lead to the end of the chain. The first is replaced, and the survey stops at the second: the
canonical form is not the expansion. -/
theorem stopped_builtinDump : ∃ src, ofJson? "char.hpp" builtinDump = some src ∧
    Acyclic src.names ∧ ∃ e ∈ src.cursor.toList, e.spelling = some "char16_t" ∧
      qualify src.names e.scope (parse "char16_t") = builtinShape ∧
      (∀ k, parse (form src.names builtinShape k).render = form src.names builtinShape k) ∧
      links src.names builtinShape ≤ (SurveyRules.standard).options.maxAliasDepth ∧
      declaredTypeOf src.names e = ⟨"char16_t", false, .char16, 0⟩ ∧
      canonical .standard src (declaredTypeOf src.names e) = ⟨"uint16", false, .typedef, 0⟩ ∧
      (expand src.names builtinShape).render = "unsigned short" := by
  have hall : ∃ src ∈ ofJson? "char.hpp" builtinDump, Acyclic src.names ∧
      ∃ e ∈ src.cursor.toList, e.spelling = some "char16_t" ∧
        qualify src.names e.scope (parse "char16_t") = builtinShape ∧
        (∀ k < 3, parse (form src.names builtinShape k).render =
          form src.names builtinShape k) ∧
        links src.names builtinShape = 2 ∧
        declaredTypeOf src.names e = ⟨"char16_t", false, .char16, 0⟩ ∧
        canonical .standard src (declaredTypeOf src.names e) = ⟨"uint16", false, .typedef, 0⟩ ∧
        (expand src.names builtinShape).render = "unsigned short" := by
    decide +kernel
  obtain ⟨src, hv, hacyclic, e, he, ht, hs, hread, hlinks, hd, hstopped, hexpand⟩ := hall
  have hforms := parse_render_form hacyclic fun k hk => hread k (by omega)
  have hdepth : links src.names builtinShape ≤ (SurveyRules.standard).options.maxAliasDepth := by
    rw [hlinks]
    decide
  exact ⟨src, hv, hacyclic, e, he, ht, hs, hforms, hdepth, hd, hstopped, hexpand⟩

end DeclAtlas.Dump.Source
