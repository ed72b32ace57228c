import DeclAtlas.Proofs.Source.Reading

/-!
# Scripts without some of their entries

Entries are chosen by the kind of their declaration and by what it is nested in. Deleting the
others from a script leaves the answers about those that stay as they were, unless one that is
deleted was found in the place of one that stays. That takes two equal declarations, of which
there are none while there are lines enough, and never two of different kinds.

Without a bound on the lines, `settled` is the script in which every entry says what the script
answers for it. From there anything can be deleted.

## Main results

* `Script.delivers_keeping`, `Script.delivers_settled`: a script delivers what it answers also
  without some of its entries.
* `Script.Recorded.settled_eq`: a script that is not too long is settled.
* `Script.sameTypes_keeping`: types do not change as long as structures stay.
-/

universe u v

namespace DeclAtlas

open DeclarationSource

/-- Two sources know the same of types. -/
structure SameTypes {σ : Type u} {τ : Type v} [DeclarationSource σ] [DeclarationSource τ]
    (src : σ) (src' : τ) : Prop where
  typeDeclaration : typeDeclaration src' = typeDeclaration src
  stripAlias : stripAlias src' = stripAlias src
  element : element src' = element src
  isConst : isConst src' = isConst src

namespace SameTypes

variable {σ : Type u} {τ : Type v} [DeclarationSource σ] [DeclarationSource τ] {src : σ} {src' : τ}

theorem trans {υ : Type u} [DeclarationSource υ] {src'' : υ} (h : SameTypes src src')
    (h' : SameTypes src' src'') : SameTypes src src'' :=
  ⟨h'.typeDeclaration.trans h.typeDeclaration, h'.stripAlias.trans h.stripAlias,
    h'.element.trans h.element, h'.isConst.trans h.isConst⟩

theorem next_left [SteadyTypes σ] (h : SameTypes src src') : SameTypes (next src).2 src' :=
  ⟨h.typeDeclaration.trans (SteadyTypes.typeDeclaration_next src).symm,
    h.stripAlias.trans (SteadyTypes.stripAlias_next src).symm,
    h.element.trans (SteadyTypes.element_next src).symm,
    h.isConst.trans (SteadyTypes.isConst_next src).symm⟩

theorem next_right [SteadyTypes τ] (h : SameTypes src src') : SameTypes src (next src').2 :=
  ⟨(SteadyTypes.typeDeclaration_next src').trans h.typeDeclaration,
    (SteadyTypes.stripAlias_next src').trans h.stripAlias,
    (SteadyTypes.element_next src').trans h.element,
    (SteadyTypes.isConst_next src').trans h.isConst⟩

theorem next [SteadyTypes σ] [SteadyTypes τ] (h : SameTypes src src') :
    SameTypes (next src).2 (next src').2 :=
  h.next_left.next_right

end SameTypes

/-- A choice of declarations, by their kind and by the declarations around them. -/
abbrev Choice := DeclarationKind → List Declaration → Bool

/-- Is an item chosen? -/
def Choice.item (keep : Choice) (i : Item) : Bool := keep i.declaration.kind i.ancestors

/-- Is an entry chosen? -/
def Choice.entry (keep : Choice) (e : ScriptEntry) : Bool := keep e.declaration.kind e.ancestors

/-- Deleting what is not looked for does not change what is found first. -/
theorem find?_filter_of_imp {α : Type u} {p q : α → Bool} {xs : List α}
    (h : ∀ x ∈ xs, q x = true → p x = true) : (xs.filter p).find? q = xs.find? q := by
  induction xs with
  | nil => rfl
  | cons x xs ih =>
      obtain ⟨hx, hxs⟩ := List.forall_mem_cons.1 h
      cases hq : q x with
      | true => rw [List.filter_cons_of_pos (hx hq), List.find?_cons_of_pos hq,
          List.find?_cons_of_pos hq]
      | false =>
          rw [List.find?_cons_of_neg (by simp [hq]), ← ih hxs]
          cases hp : p x with
          | true => rw [List.filter_cons_of_pos hp, List.find?_cons_of_neg (by simp [hq])]
          | false => rw [List.filter_cons_of_neg (by simp [hp])]

namespace Script

variable {s : Script} {keep : Choice}

/-! ## Deleting -/

/-- The script with the chosen entries only, read as far as it was. -/
def keeping (s : Script) (keep : Choice) : Script :=
  { s with cursor :=
      { entries := s.cursor.entries.filter keep.entry
        position := (s.cursor.toList.take s.cursor.position).countP keep.entry } }

theorem entries_keeping (s : Script) (keep : Choice) :
    (s.keeping keep).entries = s.entries.filter keep.entry :=
  Array.toList_filter ..

theorem upcoming_keeping (s : Script) (keep : Choice) :
    (s.keeping keep).cursor.upcoming = s.cursor.upcoming.filter keep.entry := by
  change (s.cursor.entries.filter keep.entry).toList.drop
    ((s.cursor.toList.take s.cursor.position).countP keep.entry) = _
  rw [Array.toList_filter, List.countP_eq_length_filter]
  conv_lhs => rw [← List.take_append_drop s.cursor.position s.cursor.entries.toList]
  rw [List.filter_append]
  exact List.drop_left' rfl

/-- What stays is found as before, if all that equals it stays. -/
theorem entryFor_keeping {d : Declaration}
    (hd : ∀ e ∈ s.entries, e.declaration = d → keep.entry e = true) :
    Script.entry? (s.keeping keep) d = s.entry? d := by
  unfold entry?
  rw [entries_keeping]
  exact find?_filter_of_imp fun e he hed => hd e he (by simpa using hed)

/-- Types are the same as long as structures stay. -/
theorem sameTypes_keeping (s : Script) (hk : ∀ kind ancestors,
    DeclarationKind.isStructure kind = true → keep kind ancestors = true) :
    SameTypes s (s.keeping keep) where
  typeDeclaration := by
    funext t
    change Script.typeDeclaration _ t = Script.typeDeclaration s t
    unfold Script.typeDeclaration
    rw [entries_keeping, List.find?_map, List.find?_map, find?_filter_of_imp]
    · rfl
    · intro e _ hq
      exact hk _ _ (Bool.and_eq_true_iff.1 hq).1
  stripAlias := rfl
  element := rfl
  isConst := rfl

/-- A script without some entries delivers the items that are left, if no declaration that is
deleted equals one that stays. -/
theorem delivers_keeping (hne : ∀ e ∈ s.entries, e.declaration.isEmpty = false)
    (hsame : ∀ e ∈ s.entries, ∀ e' ∈ s.entries, e.declaration = e'.declaration →
      keep.entry e = keep.entry e') :
    Delivers (s.keeping keep) ((s.cursor.upcoming.map s.answer).filter keep.item) := by
  have hdelivers := delivers_answers (s := s.keeping keep) fun e he => by
    rw [entries_keeping] at he
    exact hne e (List.mem_of_mem_filter he)
  have hanswers : (s.cursor.upcoming.filter keep.entry).map (s.keeping keep).answer =
      (s.cursor.upcoming.filter keep.entry).map s.answer := by
    refine List.map_congr_left fun e he => answer_congr (entryFor_keeping fun e' he' hd => ?_)
    obtain ⟨hmem, hkeep⟩ := List.mem_filter.1 he
    rw [hsame e' he' e (List.mem_of_mem_drop hmem) hd, hkeep]
  rw [upcoming_keeping, hanswers] at hdelivers
  rwa [List.filter_map]

/-! ## Deleting from long scripts -/

/-- An entry that says what the script answers for it. -/
def settle (s : Script) (e : ScriptEntry) : ScriptEntry :=
  { e with
    declaredType := declaredType s e.declaration
    visibility := visibility s e.declaration
    flags := methodFlags s e.declaration }

/-- The script in which every entry says what is answered for it. -/
def settled (s : Script) : Script :=
  { s with cursor := { s.cursor with entries := s.cursor.entries.map s.settle } }

theorem entries_settled (s : Script) : s.settled.entries = s.entries.map s.settle :=
  Array.toList_map ..

theorem upcoming_settled (s : Script) :
    s.settled.cursor.upcoming = s.cursor.upcoming.map s.settle := by
  rw [Cursor.upcoming, Cursor.upcoming, List.map_drop]
  exact congrArg (List.drop _) (entries_settled s)

theorem sameTypes_settled (s : Script) : SameTypes s s.settled where
  typeDeclaration := by
    funext t
    change Script.typeDeclaration _ t = Script.typeDeclaration s t
    unfold Script.typeDeclaration
    rw [entries_settled, List.map_map]
    rfl
  stripAlias := rfl
  element := rfl
  isConst := rfl

/-- After settling, whichever of the equal declarations are left, one of them is found, and it
says the same as all of them. -/
theorem answer_keeping_settled {e : ScriptEntry} (he : e ∈ s.entries)
    (hkeep : keep.entry e = true) :
    (s.settled.keeping keep).answer (s.settle e) = s.answer e := by
  obtain ⟨e', he'⟩ : ∃ e', Script.entry? (s.settled.keeping keep) e.declaration = some e' := by
    refine Option.isSome_iff_exists.1 (List.find?_isSome.2 ⟨s.settle e, ?_, ?_⟩)
    · rw [entries_keeping, entries_settled]
      exact List.mem_filter.2 ⟨List.mem_map_of_mem he, hkeep⟩
    · exact decide_eq_true rfl
  have hfound : e'.declaration = e.declaration := by
    simpa using List.find?_some he'
  have hmem := List.mem_of_find?_eq_some he'
  rw [entries_keeping, entries_settled] at hmem
  obtain ⟨e₁, -, rfl⟩ := List.mem_map.1 (List.mem_of_mem_filter hmem)
  have hd : e₁.declaration = e.declaration := hfound
  have hsettle : (s.settle e).declaration = e.declaration := rfl
  simp only [answer, declaredType, visibility, methodFlags, hsettle, he', Option.map_some,
    Option.getD_some]
  simp only [settle, hd]
  rfl

/-- From a settled script anything can be deleted. -/
theorem delivers_settled (hne : ∀ e ∈ s.entries, e.declaration.isEmpty = false) :
    Delivers (s.settled.keeping keep) ((s.cursor.upcoming.map s.answer).filter keep.item) := by
  have hdelivers := delivers_answers (s := s.settled.keeping keep) fun e he => by
    rw [entries_keeping, entries_settled] at he
    obtain ⟨e', he', rfl⟩ := List.mem_map.1 (List.mem_of_mem_filter he)
    exact hne e' he'
  rw [upcoming_keeping, upcoming_settled, List.filter_map, List.map_map] at hdelivers
  rw [List.filter_map]
  refine (List.map_congr_left fun e he => ?_) ▸ hdelivers
  obtain ⟨hmem, hkeep⟩ := List.mem_filter.1 he
  exact answer_keeping_settled (List.mem_of_mem_drop hmem) hkeep

/-- While there are lines enough, a script says what it answers. -/
theorem Recorded.settled_eq (hs : Recorded s) (hl : s.entries.length ≤ maxLine) :
    s.settled = s := by
  have hsettle : s.cursor.entries.map s.settle = s.cursor.entries := by
    refine (Array.map_congr_left fun e he => ?_).trans (Array.map_id _)
    have hanswer : s.answer e = e.item := hs.answer_eq hl (Array.mem_toList_iff.2 he)
    show ({ e with
      declaredType := (s.answer e).type
      visibility := (s.answer e).visibility
      flags := (s.answer e).flags } : ScriptEntry) = e
    rw [hanswer]
    rfl
  rw [settled, hsettle]

end Script

end DeclAtlas
