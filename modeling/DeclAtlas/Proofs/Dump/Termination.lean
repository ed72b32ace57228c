import DeclAtlas.Proofs.Dump.Unfolding
import DeclAtlas.Proofs.Survey.Termination
import Mathlib.Data.List.MinMax

/-!
# Surveys of dumps come to an end

Entering a type goes on in two ways. Below a pointer, reference or array it takes one layer
off, and following aliases may put layers on again. Below an alias it goes on to what the alias
stands for, and then the alias has its entry.

Where aliases are grounded, the layers of a type and those that its core unfolds to are not
made more by following aliases, and a layer taken off makes them fewer. Steps below an alias
keep this number, but make fewer the aliases without an entry. So the two numbers together go
down with every level, and what the dump has of both is the bound.

Spellings must keep their layers when they are read again. A name that ends in a mark, such as
what is left of `A *const volatile` without its qualifiers, gains a layer there that no alias
was seen to add. So the types of the entries must be legible, and the names that they lead to;
other names are not looked at.

## Main results

* `Bounded.lower`: every level of entering lowers the measure.
* `build_finishes`: a survey of a legible dump with grounded aliases comes to an end.
-/

namespace DeclAtlas.Dump.Source

open DeclarationSource Survey

variable {names : NameTable} {s src : Source} {o : SurveyOptions} {t u : DeclaredType}
  {a : Atlas} {e : StreamEntry} {d : Declaration} {n : Nat}

/-! ## Types that unfold to few layers -/

/-- A type without a shape, or with a legible one that unfolds to at most `n` layers. -/
inductive Bounded (names : NameTable) (n : Nat) : DeclaredType → Prop where
  | blank : Bounded names n {}
  | shape {s : Shape} (hs : LegibleIn names s) (hn : extent names s ≤ n) :
      Bounded names n (toDeclared names s)

theorem stripAlias_blank (hblank : aliasTarget? names "" = none) : stripAlias names {} = {} := by
  apply stripAlias_of_not_alias
  intro name hname
  obtain rfl : "" = name := Option.some.inj hname
  exact hblank

theorem Bounded.stripAlias (hblank : aliasTarget? names "" = none) (hg : Grounded names)
    (ht : Bounded names n t) : Bounded names n (stripAlias names t) := by
  cases ht with
  | blank =>
      rw [stripAlias_blank hblank]
      exact .blank
  | @shape s hs hn =>
      rw [stripAlias_eq]
      split
      · have hread : Shape.parse (toDeclared names s).identifier = s.reread :=
          Shape.parse_render hs.shape
        rw [hread]
        refine .shape hs.reread.substituteAlias ?_
        rw [extent_substituteAlias hg]
        exact (extent_reread_le names s).trans hn
      · exact .shape hs hn

/-- One layer is taken off, if there is one. -/
theorem Bounded.elementType (ht : Bounded names n t)
    (hne : (elementType names t).identifier ≠ "") :
    ∃ m, m < n ∧ Bounded names m (elementType names t) := by
  cases ht with
  | blank => exact absurd rfl hne
  | @shape s hs hn =>
      have hread : Shape.parse (toDeclared names s).identifier = s.reread :=
        Shape.parse_render hs.shape
      rw [Source.elementType, hread] at hne ⊢
      cases hi : s.reread.inner? with
      | none =>
          rw [hi] at hne
          exact absurd rfl hne
      | some inner =>
          have hext : extent names s.reread = extent names inner + 1 := extent_inner hi
          have hle := extent_reread_le names s
          exact ⟨extent names inner, by omega, .shape (hs.reread.inner hi) le_rfl⟩

/-! ## The measure -/

/-- The spellings of the names of a table, const or not. -/
def nameKeys (names : NameTable) : Finset String :=
  (names.names.flatMap fun p => [p.1, "const " ++ p.1]).toFinset

theorem card_nameKeys_le (names : NameTable) :
    (nameKeys names).card ≤ 2 * names.names.length := by
  refine (List.toFinset_card_le _).trans ?_
  induction names.names with
  | nil => exact Nat.zero_le _
  | cons p ps ih =>
      simp only [List.flatMap_cons, List.length_append, List.length_cons, List.length_nil] at ih ⊢
      omega

/-- A type of kind `typedef` is the use of a registered name. -/
theorem Bounded.mem_nameKeys (ht : Bounded names n t) (hk : t.kind = .typedef) :
    t.identifier ∈ nameKeys names := by
  cases ht with
  | blank => exact nomatch hk
  | @shape s hs hn =>
      cases s with
      | array s e => cases e <;> exact nomatch hk
      | pointer | lValueRef | rValueRef | verbatim => exact nomatch hk
      | named name c =>
          have hkind : namedKind names name = .typedef := hk
          have hmem : name ∈ names.names.map (·.1) := by
            unfold namedKind at hkind
            split at hkind
            · rename_i hbuiltin
              have hprim := Builtin.isPrimitive_of_kind? hbuiltin
              rw [hkind] at hprim
              exact absurd hprim (by decide)
            · cases hget : names.get? name with
              | none =>
                  rw [hget] at hkind
                  exact nomatch hkind
              | some m => exact List.mem_map_of_mem (NameTable.mem_of_get? hget)
          obtain ⟨p, hp, rfl⟩ := List.mem_map.1 hmem
          refine List.mem_toFinset.2 (List.mem_flatMap.2 ⟨p, hp, ?_⟩)
          have hid : (toDeclared names (.named p.1 c)).identifier =
              (if c then "const " else "") ++ p.1 := Shape.render_named p.1 c
          rw [hid]
          cases c <;> simp

/-- Below a layer there are fewer layers to come; below an alias no more than before, and the
alias has its name entered. -/
theorem Bounded.target (hblank : aliasTarget? src.names "" = none) (hg : Grounded src.names)
    (ht : Bounded src.names n t) (h : targetOf? o src t = some u) :
    (∃ m, m < n ∧ Bounded src.names m u) ∨
      (Bounded src.names n u ∧ keyOf o src t ∈ nameKeys src.names) := by
  have hform : Bounded src.names n (formOf o src t) :=
    followAliases_induction (P := Bounded src.names n) (fun _ ht => ht.stripAlias hblank hg) ht _
  obtain ⟨⟨-, rfl⟩ | ⟨hrule, rfl⟩, -, hne⟩ := targetOf?_eq_some_iff.1 h
  · exact .inl (hform.elementType hne)
  · have hkind : t.kind = .typedef := by
      cases hk : t.kind <;> rw [hk] at hrule <;> first | rfl | exact nomatch hrule
    have hkey : keyOf o src t = t.identifier := congrArg _ (canonical_typedef hkind)
    refine .inr ⟨hform.stripAlias hblank hg, ?_⟩
    rw [hkey]
    exact ht.mem_nameKeys hkind

/-- Every level of entering lowers the measure. -/
theorem Bounded.lower (hblank : aliasTarget? src.names "" = none) (hg : Grounded src.names)
    (ht : Bounded src.names n t) (hk : keyOf o src t ∉ a.types.keys)
    (h : targetOf? o src t = some u) :
    ∃ m, Bounded src.names m u ∧
      m + (missing (nameKeys src.names) (openEntry o src t a)).card <
        n + (missing (nameKeys src.names) a).card := by
  rcases ht.target hblank hg h with ⟨m, hm, hu⟩ | ⟨hu, hkey⟩
  · have hle := card_missing_openEntry_le (nameKeys src.names) hk
    exact ⟨m, hu, by omega⟩
  · have hlt := card_missing_openEntry hk hkey
    exact ⟨n, hu, by omega⟩

theorem exists_enters_of_bounded (hblank : aliasTarget? src.names "" = none)
    (hg : Grounded src.names) (k : Nat) (ht : Bounded src.names n t)
    (hk : n + (missing (nameKeys src.names) a).card ≤ k) :
    ∃ calls h a', Enters o src t a calls h a' ∧ calls.length ≤ k + 1 := by
  apply exists_enters_of_lower fun k t a =>
    ∃ n, Bounded src.names n t ∧ n + (missing (nameKeys src.names) a).card ≤ k
  · intro k t a u ⟨n, ht, hk⟩ hknown hb
    obtain ⟨m, hu, hlt⟩ := ht.lower hblank hg hknown hb
    exact ⟨_, hlt.trans_le hk, m, hu, le_rfl⟩
  · exact ⟨n, ht, hk⟩

/-! ## Whole dumps -/

/-- A source in which the types of the entries are legible, and so are the names and aliases
that they lead to. Names that no type leads to may be anything. -/
structure Legible (s : Source) : Prop where
  /-- An empty name is no alias, so what has no type has no alias in it. -/
  blank : aliasTarget? s.names "" = none
  spelling : ∀ e ∈ s.cursor.toList, ∀ t ∈ e.spelling, t ≠ "" →
    LegibleIn s.names (qualify s.names e.scope (Shape.parse t))

/-- It is enough, and can be computed, that the whole table is legible. -/
theorem legible_of_names (hl : s.names.Legible)
    (hspelling : ∀ e ∈ s.cursor.toList, ∀ t ∈ e.spelling, t ≠ "" → (Shape.parse t).Legible) :
    s.Legible where
  blank := by
    cases ha : aliasTarget? s.names "" with
    | none => rfl
    | some target =>
        obtain ⟨p, hp, hempty, -⟩ := aliasTarget_mem ha
        exact absurd (hl.isName p hp) (by rw [hempty]; decide)
  spelling e he t ht hne := by
    have hs := hspelling e he t ht hne
    exact legibleIn hl (legible_qualify hs e.scope (isName_qualify hl hs e.scope))

/-- How many layers the type of an entry unfolds to. -/
def entryExtent (names : NameTable) (e : StreamEntry) : Nat :=
  extent names (qualify names e.scope (Shape.parse (e.spelling.getD "")))

/-- The most layers that the type of an entry unfolds to. -/
def span (s : Source) : Nat :=
  (s.cursor.toList.map (entryExtent s.names)).foldr max 0

/-- How many levels entering a type can take: its layers, every name const and not const, and
a last one. -/
def nesting (s : Source) : Nat := s.span + 2 * s.names.names.length + 1

theorem entryExtent_le_span (he : e ∈ s.cursor.toList) :
    entryExtent s.names e ≤ s.span :=
  List.le_max_of_le' 0 (List.mem_map_of_mem he) le_rfl

theorem mem_of_entry? (h : s.entry? d = some e) : e ∈ s.cursor.toList := by
  unfold entry? at h
  rcases Option.or_eq_some_iff.1 h with hc | ⟨-, hf⟩
  · obtain ⟨hcur, -⟩ := Option.filter_eq_some_iff.1 hc
    obtain ⟨i, -, hi⟩ := Option.bind_eq_some_iff.1 hcur
    exact Array.mem_toList_iff.2 (Array.mem_of_getElem? hi)
  · exact List.mem_of_find?_eq_some hf

theorem bounded_declaredType (hs : s.Legible) (d : Declaration) :
    Bounded s.names s.span (declaredType s d) := by
  change Bounded s.names s.span (((s.entry? d).map (declaredTypeOf s.names)).getD {})
  cases he : s.entry? d with
  | none => exact .blank
  | some e =>
      have hmem := mem_of_entry? he
      change Bounded s.names s.span (declaredTypeOf s.names e)
      cases ht : e.spelling with
      | none =>
          rw [declaredTypeOf, ht]
          exact .blank
      | some t =>
          by_cases hne : t = ""
          · rw [declaredTypeOf, ht]
            dsimp only
            rw [if_pos hne]
            exact .blank
          · have hle := entryExtent_le_span hmem
            rw [entryExtent, ht, Option.getD_some] at hle
            rw [declaredTypeOf_eq ht hne]
            exact .shape (hs.spelling e hmem t ht hne) hle

/-- Reading a declaration leaves less to be read. -/
theorem length_upcoming_next (s : Source) (h : (next s).1.isEmpty = false) :
    (next s).2.cursor.upcoming.length < s.cursor.upcoming.length :=
  Cursor.length_upcoming_of_read h

/-- Every use of a type of a dump with grounded aliases is entered in a number of levels that
the dump alone bounds, and every survey of it comes to an end. -/
theorem build_finishes (hs : s.Legible) (hg : Grounded s.names) (o : SurveyOptions)
    (id : ArenaId) : ∃ uses a s', Runs o s (Atlas.empty id) uses a s' ∧
      build (.standard o) (s.cursor.size + s.nesting + 1) s id = some (a, s') ∧
      ∀ u ∈ uses, u.calls.length ≤ s.nesting := by
  have hupcoming : s.cursor.upcoming.length ≤ s.cursor.size := by
    simp [Cursor.upcoming, Cursor.toList, Cursor.size]
  refine exists_runs
    (fun s' => s'.names = s.names ∧ s'.cursor.toList = s.cursor.toList)
    (fun s' => s'.cursor.upcoming.length)
    (fun s' h => ⟨h.1, (Cursor.toList_next _).trans h.2⟩) length_upcoming_next
    (fun s' d a h => ?_) s.cursor.size ⟨rfl, rfl⟩ hupcoming (by omega)
  obtain ⟨hnames, hentries⟩ := h
  have hs' : s'.Legible := by
    refine ⟨hnames ▸ hs.blank, ?_⟩
    rw [hnames, hentries]
    exact hs.spelling
  have hspan : s'.span = s.span := by rw [span, span, hnames, hentries]
  have hcard := (card_missing_le (nameKeys s'.names) a).trans (card_nameKeys_le s'.names)
  rw [nesting, ← hspan, ← hnames]
  exact exists_enters_of_bounded hs'.blank (hnames ▸ hg) _ (bounded_declaredType hs' d)
    (by omega)

/-- A namespace with an alias for itself, which adds no layer, and one for pointers to it. -/
def circularDump : Json.Value :=
  .record [("kind", .text "TranslationUnitDecl"), ("inner", .array [
    .record [("kind", .text "NamespaceDecl"), ("name", .text "N"), ("inner", .array [
      .record [("kind", .text "TypedefDecl"), ("name", .text "A"),
        ("type", .record [("qualType", .text "A")])],
      .record [("kind", .text "TypedefDecl"), ("name", .text "P"),
        ("type", .record [("qualType", .text "A *")])],
      .record [("kind", .text "CXXRecordDecl"), ("name", .text "S"),
        ("tagUsed", .text "struct"), ("completeDefinition", .bool true),
        ("inner", .array [
          .record [("kind", .text "FieldDecl"), ("name", .text "p"),
            ("type", .record [("qualType", .text "P[4]")])],
          .record [("kind", .text "FieldDecl"), ("name", .text "a"),
            ("type", .record [("qualType", .text "A")])]])]])]])]

theorem build_finishes_circularDump : ∃ s, ofJson? "loop.hpp" circularDump = some s ∧
    s.Legible ∧ Grounded s.names ∧ s.nesting = 9 ∧
    ∃ uses a s', Runs {} s (Atlas.empty ⟨1⟩) uses a s' ∧
      build (.standard {}) (s.cursor.size + s.nesting + 1) s ⟨1⟩ = some (a, s') ∧
      ∀ u ∈ uses, u.calls.length ≤ s.nesting := by
  have hall : ∃ s ∈ ofJson? "loop.hpp" circularDump, s.names.Legible ∧
      (∀ e ∈ s.cursor.toList, ∀ t ∈ e.spelling, t ≠ "" → (Shape.parse t).Legible) ∧
      Grounded s.names ∧ s.nesting = 9 := by
    decide +kernel
  obtain ⟨s, hv, hl, hspelling, hg, hn⟩ := hall
  have hs : s.Legible := legible_of_names hl hspelling
  exact ⟨s, hv, hs, hg, hn, build_finishes hs hg {} ⟨1⟩⟩

end DeclAtlas.Dump.Source
