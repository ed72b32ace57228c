import DeclAtlas.Proofs.Survey.Running

/-!
# Later uses of a name

Only the use that makes an entry fills it in. A later use is answered with the handle that
is there, and the atlas stays as it is; the exception is an enum, whose rule marks the entry
as not modelled at every use, whatever it was made for.

So one list is all there is to tell of later uses: the names that enums met again
(`remarked`). A derivation leaves every entry alone but for the mark on those. Over a whole
history the same names say which entries can have a structure without being of kind
`struct`.

Between two calls of entering an atlas can be in the middle of another call, with entries
that are still open. `Reached` has these states as well.

## Main results

* `Enters.entries`: what becomes of each entry while a use is entered.
* `Enters.length_remarked_le`: the mark is made on one entry at most.
* `Enters.linked`: which entries have a structure.
* `resolve_fillsOnce`: both, for every call of `resolve` in every state that can be reached.
* `resolve_remarks_struct`: a resolved entry of a struct that a later enum changes.
-/

universe u

namespace DeclAtlas

/-- The entry marked as one that is not modelled. -/
def TypeEntry.unmodelled (e : TypeEntry) : TypeEntry := { e with kind := .unhandled }

namespace Survey

open DeclarationSource

variable {σ : Type u} [DeclarationSource σ] {o : SurveyOptions} {src src' : σ}
  {d : Declaration} {t target : DeclaredType} {a a' : Atlas} {calls : List Call}
  {uses : List Use} {h x : TypeHandle} {k : String} {e : TypeEntry} {ns ms : List String}

/-! ## The names met again -/

/-- The names of known entries that some calls used for enums. -/
def remarked (o : SurveyOptions) (src : σ) (calls : List Call) : List String :=
  (calls.filter fun c => !c.isNew && c.type.kind = .enum).map fun c => keyOf o src c.type

@[simp] theorem remarked_cons_new (o : SurveyOptions) (src : σ) (t : DeclaredType)
    (calls : List Call) : remarked o src (⟨t, true⟩ :: calls) = remarked o src calls := rfl

@[simp] theorem remarked_flat (o : SurveyOptions) (src : σ) (t : DeclaredType) :
    remarked o src [⟨t, true⟩] = [] := rfl

theorem remarked_known (o : SurveyOptions) (src : σ) (t : DeclaredType) :
    remarked o src [⟨t, false⟩] = if t.kind = .enum then [keyOf o src t] else [] := by
  by_cases hk : t.kind = .enum
  · simp [remarked, hk]
  · simp [remarked, hk]

theorem atEveryUse_ruleOf (t : DeclaredType) (h : TypeHandle) (a : Atlas) :
    atEveryUse (ruleOf t.kind) h a =
      if t.kind = .enum then a.modifyType h TypeEntry.unmodelled else a := by
  cases t.kind <;> rfl

/-- A use that leads on to another is no enum. -/
theorem kind_ne_enum_of_target (ht : targetOf? o src t = some target) : t.kind ≠ .enum := by
  intro hk
  rw [targetOf?_eq_some_iff, hk] at ht
  simp [ruleOf] at ht

/-- Only the last of the uses on the way down can meet a known name. -/
theorem Enters.length_remarked_le (he : Enters o src t a calls h a') :
    (remarked o src calls).length ≤ 1 := by
  induction he with
  | @known t a hk =>
      rw [remarked_known]
      split
      · exact Nat.le_refl 1
      · exact Nat.zero_le 1
  | flat hk ht => exact Nat.zero_le 1
  | layered hk ht _ ih => exact ih

/-! ## The entries there were -/

/-- Entering leaves every entry as it was, but for the mark on names that enums met again. -/
theorem Enters.entries (he : Enters o src t a calls h a') (hn : a.types.keys.Nodup)
    (hv : a.types.Holds x k e) :
    a'.types.Holds x k (if k ∈ remarked o src calls then e.unmodelled else e) := by
  induction he with
  | @known t a hk =>
      rw [atEveryUse_ruleOf, remarked_known]
      by_cases henum : t.kind = .enum
      · rw [if_pos henum, if_pos henum]
        by_cases hkey : k = keyOf o src t
        · have hx : x = a.findType (keyOf o src t) := by
            rw [← hkey]
            exact (hv.find hn).symm
          rw [if_pos (List.mem_singleton.2 hkey), ← hx]
          exact hv.modify_self
        · have hx : x ≠ a.findType (keyOf o src t) := by
            intro hx
            obtain ⟨w, hw⟩ := Registry.exists_holds_find hk
            rw [hx] at hv
            exact hkey (hv.unique hw).1
          rw [if_neg (fun hc => hkey (List.mem_singleton.1 hc))]
          exact hv.modify_of_ne hx
      · rw [if_neg henum, if_neg henum, if_neg List.not_mem_nil]
        exact hv
  | flat hk ht =>
      have hne := ne_entryOf hk hv
      rw [remarked_flat, if_neg List.not_mem_nil]
      apply holds_closeEntry_of_ne _ _ hne
      apply holds_linkRecord_of_ne _ _ _ _ hne
      exact holds_openEntry_old hk hv
  | @layered t target a a' calls base hk ht _ ih =>
      have hne := ne_entryOf hk hv
      have hbelow := ih (nodup_openEntry hn) (holds_openEntry_old hk hv)
      rw [remarked_cons_new]
      apply holds_closeEntry_of_ne _ _ hne
      exact holds_linkBase_of_ne _ hbelow hne

/-- A use of a known name is answered with its handle, and only an enum changes anything. -/
theorem Enters.of_known (he : Enters o src t a calls h a')
    (hk : keyOf o src t ∈ a.types.keys) :
    h = a.findType (keyOf o src t) ∧
      a' = if t.kind = .enum then a.modifyType h TypeEntry.unmodelled else a := by
  cases he with
  | known _ => exact ⟨rfl, atEveryUse_ruleOf ..⟩
  | flat hnew _ => exact absurd hk hnew
  | layered hnew _ _ => exact absurd hk hnew

/-! ## Entries with a structure -/

/-- An entry has a structure only if it is of kind `struct`, or was before its name, one of
`ns`, was used for an enum. -/
def LinkedStruct (ns : List String) (k : String) (e : TypeEntry) : Prop :=
  e.baseStructure = .null ∨ e.kind = .struct ∨ (e.kind = .unhandled ∧ k ∈ ns)

theorem LinkedStruct.mono (hl : LinkedStruct ns k e) (hsub : ns ⊆ ms) :
    LinkedStruct ms k e := by
  rcases hl with hnull | hstruct | ⟨hkind, hmem⟩
  · exact Or.inl hnull
  · exact Or.inr (Or.inl hstruct)
  · exact Or.inr (Or.inr ⟨hkind, hsub hmem⟩)

theorem linked_openEntry (ha : a.AllTypes (LinkedStruct ns))
    (hk : keyOf o src t ∉ a.types.keys) :
    (openEntry o src t a).AllTypes (LinkedStruct ns) :=
  allTypes_openEntry ha hk (Or.inl rfl)

theorem linked_linkRecord (ha : a.AllTypes (LinkedStruct ns)) (o : SurveyOptions) (src : σ)
    (t : DeclaredType) (h : TypeHandle) :
    (linkRecord o src t h a).AllTypes (LinkedStruct ns) := by
  unfold linkRecord linkStructure
  split
  · split
    · apply Atlas.AllTypes.modifyType (a := ((a.enterStructure _).2.2.modifyStructure _ _)) ha
      intro _ _ _ _
      exact Or.inr (Or.inl rfl)
    · exact ha
  · exact ha

theorem linked_linkBase (ha : a.AllTypes (LinkedStruct ns)) (h base : TypeHandle) :
    (linkBase h base a).AllTypes (LinkedStruct ns) := by
  unfold linkBase
  split
  · exact ha
  · exact ha.modifyType fun _ _ _ hl => hl

theorem linked_complete (ha : a.AllTypes (LinkedStruct ns)) (h : TypeHandle) :
    (a.modifyType h complete).AllTypes (LinkedStruct ns) :=
  ha.modifyType fun _ _ _ hl => hl

/-- The mark on an entry without a structure, or on one of the names `ns`. -/
theorem linked_unmodelled (ha : a.AllTypes (LinkedStruct ns)) (hv : a.types.Holds h k e)
    (hmark : e.baseStructure = .null ∨ k ∈ ns) :
    (a.modifyType h TypeEntry.unmodelled).AllTypes (LinkedStruct ns) := by
  refine ha.modifyType fun k' e' hv' _ => ?_
  obtain ⟨rfl, rfl⟩ := hv.unique hv'
  rcases hmark with hnull | hmem
  · exact Or.inl hnull
  · exact Or.inr (Or.inr ⟨rfl, hmem⟩)

theorem linked_enterFlat (ha : a.AllTypes (LinkedStruct ns))
    (hk : keyOf o src t ∉ a.types.keys) :
    (closeEntry t (entryOf o src t a) (linkRecord o src t (entryOf o src t a)
      (openEntry o src t a))).AllTypes (LinkedStruct ns) := by
  have hrecord := linked_linkRecord (linked_openEntry ha hk) o src t (entryOf o src t a)
  have hcomplete := linked_complete hrecord (entryOf o src t a)
  unfold closeEntry
  rw [atEveryUse_ruleOf]
  by_cases henum : t.kind = .enum
  · rw [if_pos henum]
    have hlink : linkRecord o src t (entryOf o src t a) (openEntry o src t a) =
        openEntry o src t a := by
      unfold linkRecord
      rw [henum]
      rfl
    rw [hlink] at hcomplete ⊢
    exact linked_unmodelled hcomplete (holds_openEntry_self hk).modify_self (Or.inl rfl)
  · rw [if_neg henum]
    exact hcomplete

/-- What entering does to the entries that have a structure. -/
theorem Enters.linked (he : Enters o src t a calls h a') (ha : a.AllTypes (LinkedStruct ns)) :
    a'.AllTypes (LinkedStruct (ns ++ remarked o src calls)) := by
  induction he with
  | @known t a hk =>
      have hmore : a.AllTypes (LinkedStruct (ns ++ remarked o src [⟨t, false⟩])) :=
        fun x k e hv => (ha hv).mono (List.subset_append_left _ _)
      rw [atEveryUse_ruleOf]
      by_cases henum : t.kind = .enum
      · rw [if_pos henum]
        obtain ⟨e, hv⟩ := Registry.exists_holds_find hk
        apply linked_unmodelled hmore hv
        right
        rw [remarked_known, if_pos henum]
        simp
      · rw [if_neg henum]
        exact hmore
  | flat hk ht =>
      rw [remarked_flat, List.append_nil]
      exact linked_enterFlat ha hk
  | @layered t target a a' calls base hk ht _ ih =>
      have hbelow := ih (linked_openEntry ha hk)
      rw [remarked_cons_new]
      unfold closeEntry
      rw [atEveryUse_ruleOf, if_neg (kind_ne_enum_of_target ht)]
      exact linked_complete (linked_linkBase hbelow _ _) _

/-! ## States that can be reached -/

/-- `Reached o a ns`: the atlas `a` comes of an empty one by visiting declarations and
entering types, with sources that may change on the way; `ns` are the known names that enums
were entered under. An entry that was just opened is a state in which the next type is
entered, so it counts as one. -/
inductive Reached (σ : Type u) [DeclarationSource σ] (o : SurveyOptions) :
    Atlas → List String → Prop where
  | empty (id : ArenaId) : Reached σ o (Atlas.empty id) []
  | visited {a a' : Atlas} {ns : List String} {src : σ} {d : Declaration} {uses : List Use}
      (ha : Reached σ o a ns) (hv : Visits o src d a uses a') :
      Reached σ o a' (ns ++ uses.flatMap fun u => remarked o src u.calls)
  | entered {a a' : Atlas} {ns : List String} {src : σ} {t : DeclaredType}
      {calls : List Call} {h : TypeHandle} (ha : Reached σ o a ns)
      (he : Enters o src t a calls h a') : Reached σ o a' (ns ++ remarked o src calls)
  | opened {a : Atlas} {ns : List String} {src : σ} {t : DeclaredType}
      (ha : Reached σ o a ns) (hk : keyOf o src t ∉ a.types.keys) :
      Reached σ o (openEntry o src t a) ns

/-- A visit does to the types of an atlas what entering its use does. -/
theorem Visits.linked (hv : Visits o src d a uses a') (ha : a.AllTypes (LinkedStruct ns)) :
    a'.AllTypes (LinkedStruct (ns ++ uses.flatMap fun u => remarked o src u.calls)) := by
  unfold Atlas.AllTypes
  rcases hv.types with ⟨rfl, -, ht⟩ | ⟨calls, h, b, rfl, he, -, ht⟩
  · rw [ht, List.flatMap_nil, List.append_nil]
    exact ha
  · rw [ht, List.flatMap_singleton]
    exact he.linked ha

theorem Visits.nodup (hv : Visits o src d a uses a') (hn : a.types.keys.Nodup) :
    a'.types.keys.Nodup := by
  rcases hv.types with ⟨-, -, ht⟩ | ⟨calls, h, b, -, he, -, ht⟩
  · rwa [ht]
  · rw [ht]
    exact he.nodup hn

theorem Reached.nodup (hr : Reached σ o a ns) : a.types.keys.Nodup := by
  induction hr with
  | empty id => exact List.nodup_nil
  | visited _ hv ih => exact hv.nodup ih
  | entered _ he ih => exact he.nodup ih
  | opened _ _ ih => exact nodup_openEntry ih

theorem Reached.linked (hr : Reached σ o a ns) : a.AllTypes (LinkedStruct ns) := by
  induction hr with
  | empty id =>
      intro x k e hv
      exact absurd hv.mem_keys List.not_mem_nil
  | visited _ hv ih => exact hv.linked ih
  | entered _ he ih => exact he.linked ih
  | opened _ hk ih => exact linked_openEntry ih hk

/-- The states of a run are among those that can be reached. -/
theorem Runs.reached (hr : Runs o src a uses a' src') (ha : Reached σ o a ns) :
    ∃ ms, Reached σ o a' (ns ++ ms) := by
  induction hr generalizing ns with
  | done hend => exact ⟨[], by rwa [List.append_nil]⟩
  | step hread hv _ ih =>
      obtain ⟨ms, hms⟩ := ih (ha.visited hv)
      exact ⟨_ ++ ms, by rwa [List.append_assoc] at hms⟩

/-! ## What a use does to an atlas -/

/-- What entering the use `t` in `a` does to the entries, if enums met the names `ns` again
before and the names `ms` on the way. -/
structure FillsOnce (o : SurveyOptions) (src : σ) (t : DeclaredType) (ns ms : List String)
    (a : Atlas) (h : TypeHandle) (a' : Atlas) : Prop where
  /-- A known name is answered with its handle, and only an enum changes anything. -/
  known : keyOf o src t ∈ a.types.keys → h = a.findType (keyOf o src t) ∧
    a' = if t.kind = .enum then a.modifyType h TypeEntry.unmodelled else a
  /-- Every entry stays as it was, but for the mark on the names `ms`. -/
  entries : ∀ x k e, a.types.Holds x k e →
    a'.types.Holds x k (if k ∈ ms then e.unmodelled else e)
  /-- There is one such name at most. -/
  length_le : ms.length ≤ 1
  /-- An entry that has a structure is of kind `struct` unless an enum met it again. -/
  links : ∀ x k e, a'.types.Holds x k e →
    e.baseStructure = .null ∨ e.kind = .struct ∨ (e.kind = .unhandled ∧ k ∈ ns ++ ms)

/-- Entries are filled in once: in every state that can be reached, entering any use leaves
all entries as they are, apart from the mark on an entry that the use meets as an enum. -/
theorem resolve_fillsOnce {fuel : Nat} (ha : Reached σ o a ns)
    (hr : resolve (.standard o) src fuel t a = some (h, a')) :
    ∃ calls, Enters o src t a calls h a' ∧
      FillsOnce o src t ns (remarked o src calls) a h a' := by
  obtain ⟨calls, he, -⟩ := resolve_eq_some_iff.1 hr
  refine ⟨calls, he, ?_, ?_, ?_, ?_⟩
  · exact he.of_known
  · intro x k e hv
    exact he.entries ha.nodup hv
  · exact he.length_remarked_le
  · intro x k e hv
    exact he.linked ha.linked hv

end Survey

/-- A struct without members, as a script. -/
def Script.colored : Script := ((default : Script).nest .structDecl "Color").close

namespace Survey

/-- The atlas in which that struct was used as a type. -/
def colorUsed : Atlas :=
  ((resolve (.standard {}) Script.colored 1 { identifier := "Color", kind := .struct }
    (Atlas.empty ⟨1⟩)).map (·.2)).getD default

theorem reached_colorUsed : Reached Script {} colorUsed [] := by
  have hnew : keyOf {} Script.colored { identifier := "Color", kind := .struct } ∉
      (Atlas.empty ⟨1⟩).types.keys := List.not_mem_nil
  exact .entered (.empty ⟨1⟩) (.flat hnew rfl)

/-- The name of the struct is used for an enum. -/
theorem resolve_fillsOnce_colorUsed :
    ∃ h a', Reached Script {} colorUsed [] ∧
      resolve (.standard {}) Script.colored 1 { identifier := "Color", kind := .enum }
        colorUsed = some (h, a') ∧
      ∃ calls, Enters {} Script.colored { identifier := "Color", kind := .enum } colorUsed
          calls h a' ∧
        FillsOnce {} Script.colored { identifier := "Color", kind := .enum } []
          (remarked {} Script.colored calls) colorUsed h a' := by
  have hr : resolve (.standard {}) Script.colored 1 { identifier := "Color", kind := .enum }
      colorUsed = some (_, _) := rfl
  exact ⟨_, _, reached_colorUsed, hr, resolve_fillsOnce reached_colorUsed hr⟩

/-- The entry of the struct, which is complete, loses its kind when its name is used for an
enum, although the name is known and the use makes no entry. -/
theorem resolve_remarks_struct :
    ∃ h a' e e', Reached Script {} colorUsed [] ∧
      colorUsed.type? h = some e ∧ e.isResolved = true ∧ e.kind = .struct ∧
      keyOf {} Script.colored { identifier := "Color", kind := .enum } ∈
        colorUsed.types.keys ∧
      resolve (.standard {}) Script.colored 1 { identifier := "Color", kind := .enum }
        colorUsed = some (h, a') ∧
      a'.type? h = some e' ∧ e' ≠ e ∧ e'.kind ≠ .struct ∧ e'.baseStructure ≠ .null := by
  have hr : resolve (.standard {}) Script.colored 1 { identifier := "Color", kind := .enum }
      colorUsed = some (_, _) := rfl
  exact ⟨_, _, _, _, reached_colorUsed, rfl, rfl, rfl, by decide, hr, rfl, by decide,
    by decide, by decide⟩

end Survey

end DeclAtlas
