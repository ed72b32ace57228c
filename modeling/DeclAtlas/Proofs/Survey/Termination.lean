import DeclAtlas.Proofs.Survey.Running
import Mathlib.Data.Finset.Card

/-!
# Surveys of scripts come to an end

Entering a type goes on to what lies below it, and nothing in a script keeps that from
leading round in a circle, through aliases, layers or both. But a level that goes on has
made an entry before it does, under a name that was not there. Below the outermost level
all names are those of types that an alias or a layer of the script leads to, and of these
there are finitely many.

So the number of such names that have no entry yet goes down with every level. The
outermost level comes on top, and a last one that finds its name known.

## Main results

* `exists_enters_of_lower`: where every level lowers a number, entering comes to an end.
* `exists_enters`: where names run out, entering comes to an end.
* `exists_runs`: where entering comes to an end and there is less and less to read, so does a
  survey.
* `Script.key_target_mem`: below the outermost level the names of a script run out.
* `build_terminates`: every use of a type and every survey of a script comes to an end.
-/

universe u

namespace DeclAtlas.Survey

open DeclarationSource

variable {σ : Type u} [DeclarationSource σ] {o : SurveyOptions} {src : σ}
  {t target : DeclaredType} {a : Atlas} {names : Finset String}

/-! ## Level by level -/

/-- A use takes one level more than the use below it, if there is one. -/
theorem exists_enters_succ {m : Nat}
    (hbelow : ∀ target, keyOf o src t ∉ a.types.keys → targetOf? o src t = some target →
      ∃ calls h a', Enters o src target (openEntry o src t a) calls h a' ∧ calls.length ≤ m) :
    ∃ calls h a', Enters o src t a calls h a' ∧ calls.length ≤ m + 1 := by
  by_cases hk : keyOf o src t ∈ a.types.keys
  · exact ⟨_, _, _, .known hk, by simp⟩
  · cases hb : targetOf? o src t with
    | none => exact ⟨_, _, _, .flat hk hb, by simp⟩
    | some target =>
        obtain ⟨calls, h, a', he, hlen⟩ := hbelow target hk hb
        exact ⟨_, _, _, .layered hk hb he, Nat.succ_le_succ hlen⟩

/-- A use comes to an end if every level that goes on lowers a number. `P` says which uses
can be met with this number to go. -/
theorem exists_enters_of_lower (P : Nat → DeclaredType → Atlas → Prop)
    (hlower : ∀ {n t a target}, P n t a → keyOf o src t ∉ a.types.keys →
      targetOf? o src t = some target → ∃ m, m < n ∧ P m target (openEntry o src t a))
    (n : Nat) (h : P n t a) :
    ∃ calls h a', Enters o src t a calls h a' ∧ calls.length ≤ n + 1 := by
  induction n using Nat.strong_induction_on generalizing t a with
  | _ n ih =>
      apply exists_enters_succ
      intro target hk hb
      obtain ⟨m, hm, htarget⟩ := hlower h hk hb
      obtain ⟨calls, h', a', he, hlen⟩ := ih m hm htarget
      exact ⟨calls, h', a', he, hlen.trans hm⟩

/-! ## Names run out -/

/-- The names without an entry. -/
def missing (names : Finset String) (a : Atlas) : Finset String :=
  names.filter fun n => n ∉ a.types.keys

/-- Making an entry takes its name off those that are missing. -/
theorem card_missing_openEntry (hk : keyOf o src t ∉ a.types.keys)
    (hn : keyOf o src t ∈ names) :
    (missing names (openEntry o src t a)).card < (missing names a).card := by
  apply Finset.card_lt_card
  have hkeys : (openEntry o src t a).types.keys = a.types.keys ++ [keyOf o src t] :=
    keys_openEntry hk
  constructor
  · intro n hmem
    obtain ⟨hn, hout⟩ := Finset.mem_filter.1 hmem
    refine Finset.mem_filter.2 ⟨hn, fun hin => hout ?_⟩
    rw [hkeys]
    exact List.mem_append_left _ hin
  · intro hsub
    have hmem : keyOf o src t ∈ missing names a := Finset.mem_filter.2 ⟨hn, hk⟩
    have hout := (Finset.mem_filter.1 (hsub hmem)).2
    exact hout (mem_keys_openEntry ..)

theorem card_missing_openEntry_le (names : Finset String) (hk : keyOf o src t ∉ a.types.keys) :
    (missing names (openEntry o src t a)).card ≤ (missing names a).card := by
  refine Finset.card_le_card fun n hmem => ?_
  obtain ⟨hn, hout⟩ := Finset.mem_filter.1 hmem
  refine Finset.mem_filter.2 ⟨hn, fun hin => hout ?_⟩
  rw [keys_openEntry hk]
  exact List.mem_append_left _ hin

theorem card_missing_le (names : Finset String) (a : Atlas) :
    (missing names a).card ≤ names.card :=
  Finset.card_filter_le ..

/-- A use whose name is among `names` makes one call for each of them that is missing, and
one more. -/
theorem exists_enters_of_mem
    (hclosed : ∀ t target, targetOf? o src t = some target → keyOf o src target ∈ names)
    (n : Nat) (ht : keyOf o src t ∈ names) (hn : (missing names a).card ≤ n) :
    ∃ calls h a', Enters o src t a calls h a' ∧ calls.length ≤ n + 1 := by
  apply exists_enters_of_lower fun n t a => keyOf o src t ∈ names ∧ (missing names a).card ≤ n
  · intro n t a target ⟨ht, hn⟩ hk hb
    have hlt := card_missing_openEntry hk ht
    exact ⟨_, hlt.trans_le hn, hclosed t target hb, le_rfl⟩
  · exact ⟨ht, hn⟩

/-- Any use makes at most one call for each of the names, one before and one after. -/
theorem exists_enters
    (hclosed : ∀ t target, targetOf? o src t = some target → keyOf o src target ∈ names)
    (t : DeclaredType) (a : Atlas) :
    ∃ calls h a', Enters o src t a calls h a' ∧ calls.length ≤ names.card + 2 := by
  apply exists_enters_succ
  intro target _ hb
  exact exists_enters_of_mem hclosed names.card (hclosed t target hb) (card_missing_le ..)

/-- A step never gets stuck where entering the type of its declaration comes to an end. -/
theorem exists_visits {m : Nat} {d : Declaration}
    (henters : ∃ calls h a', Enters o src (declaredType src d) a calls h a' ∧ calls.length ≤ m) :
    ∃ uses a', Visits o src d a uses a' ∧ ∀ u ∈ uses, u.calls.length ≤ m := by
  obtain ⟨calls, h, b, he, hlen⟩ := henters
  cases hk : d.kind with
  | structDecl | classDecl => exact ⟨[], _, .record (by rw [hk]; rfl), by simp⟩
  | baseSpecifier => exact ⟨[], _, .base hk, by simp⟩
  | field => exact ⟨_, _, .field hk he, by simpa using hlen⟩
  | method =>
      cases hm : entersMethod o src with
      | true => exact ⟨_, _, .method hk hm he, by simpa using hlen⟩
      | false => exact ⟨[], a, .idle (by simpa [IsIdle, hk] using hm), by simp⟩
  | parameter =>
      cases ho : parameterOwner? o src a with
      | some owner => exact ⟨_, _, .parameter hk ho he, by simpa using hlen⟩
      | none => exact ⟨[], a, .idle (by simpa [IsIdle, hk] using ho), by simp⟩
  | unsupported | function | namespaceDecl => exact ⟨[], a, .idle (by simp [IsIdle, hk]), by simp⟩

/-- A survey comes to an end where reading on leaves less and less to be read, and entering
the type of any declaration comes to an end. It takes one unit of fuel for each entry beside
what the types need. `P` says which states of the source can be met. -/
theorem exists_runs (P : σ → Prop) (left : σ → Nat) {m : Nat}
    (hnext : ∀ s, P s → P (next s).2)
    (hleft : ∀ s, (next s).1.isEmpty = false → left (next s).2 < left s)
    (henters : ∀ s d a, P s → ∃ calls h a',
      Enters o s (declaredType s d) a calls h a' ∧ calls.length ≤ m)
    (n : Nat) {fuel : Nat} (hs : P src) (hn : left src ≤ n) (hf : n + m + 1 ≤ fuel) :
    ∃ uses a' s', Runs o src a uses a' s' ∧ drain (.standard o) fuel src a = some (a', s') ∧
      ∀ u ∈ uses, u.calls.length ≤ m := by
  induction n using Nat.strong_induction_on generalizing src a fuel with
  | _ n ih =>
      obtain ⟨fuel, rfl⟩ := Nat.exists_eq_add_of_le' (show 1 ≤ fuel by omega)
      cases hread : (next src).1.isEmpty with
      | true =>
          refine ⟨[], a, _, .done hread, ?_, by simp⟩
          simp only [drain, hread, if_true]
      | false =>
          obtain ⟨us, b, hv, hus⟩ :=
            exists_visits (henters (next src).2 (next src).1 a (hnext src hs))
          have hless : left (next src).2 < n := (hleft src hread).trans_le hn
          have hfuel : left (next src).2 + m + 1 ≤ fuel := by omega
          obtain ⟨vs, a', s', hr, hd, hvs⟩ := ih _ hless (a := b) (hnext src hs) le_rfl hfuel
          have hvisit : visit (.standard o) (next src).2 fuel (next src).1 a = some b := by
            refine visit_eq_some_iff.2 ⟨us, hv, fun u hmem => ?_⟩
            have hlen := hus u hmem
            omega
          refine ⟨us ++ vs, a', s', .step hread hv hr, ?_, ?_⟩
          · simp only [drain, hread, Bool.false_eq_true, if_false, hvisit, Option.bind_some, hd]
          · intro u hmem
            rcases List.mem_append.1 hmem with hmem | hmem
            · exact hus u hmem
            · exact hvs u hmem

end Survey

/-! ## Scripts -/

namespace Script

open DeclarationSource Survey

variable {s : Script} {o : SurveyOptions} {t target : DeclaredType}

/-- The types that an alias or a layer of one spelling leads to. -/
def results (facts : TypeFacts) : List DeclaredType :=
  facts.target.toList ++ facts.element.toList

/-- The names of all types that an alias or a layer of the script leads to. -/
def resultNames (s : Script) : Finset String :=
  (s.types.flatMap fun p => (results p.2).map (·.identifier)).toFinset

theorem mem_resultNames {spelling : String} {facts : TypeFacts}
    (hf : s.facts? spelling = some facts) (ht : t ∈ results facts) :
    t.identifier ∈ s.resultNames := by
  unfold facts? at hf
  obtain ⟨p, hp, rfl⟩ := Option.map_eq_some_iff.1 hf
  refine List.mem_toFinset.2 (List.mem_flatMap.2 ⟨p, List.mem_of_find?_eq_some hp, ?_⟩)
  exact List.mem_map_of_mem ht

/-- A step that changes a type leads to a result. -/
theorem stripAlias_mem (hne : stripAlias s t ≠ t) :
    (stripAlias s t).identifier ∈ s.resultNames := by
  change ((s.facts? t.identifier).bind (·.target)).getD t ≠ t at hne
  change (((s.facts? t.identifier).bind (·.target)).getD t).identifier ∈ _
  cases hr : (s.facts? t.identifier).bind (·.target) with
  | none =>
      rw [hr] at hne
      exact absurd rfl hne
  | some r =>
      obtain ⟨facts, hf, ht⟩ := Option.bind_eq_some_iff.1 hr
      exact mem_resultNames hf (by simp [results, ht])

/-- What a layer leads to is a result, unless it has no name. -/
theorem element_mem (hne : (element s t).identifier ≠ "") :
    (element s t).identifier ∈ s.resultNames := by
  change (((s.facts? t.identifier).bind (·.element)).getD {}).identifier ≠ "" at hne
  change (((s.facts? t.identifier).bind (·.element)).getD {}).identifier ∈ _
  cases hr : (s.facts? t.identifier).bind (·.element) with
  | none =>
      rw [hr] at hne
      exact absurd rfl hne
  | some r =>
      obtain ⟨facts, hf, ht⟩ := Option.bind_eq_some_iff.1 hr
      exact mem_resultNames hf (by simp [results, ht])

/-- Following aliases from a result ends at a result. -/
theorem followAliases_mem (bound : Nat) (ht : t.identifier ∈ s.resultNames) :
    (followAliases (stripAlias s) bound t).identifier ∈ s.resultNames := by
  induction bound generalizing t with
  | zero => exact ht
  | succ bound ih =>
      rw [followAliases]
      by_cases hk : t.kind = .typedef
      · rwa [if_pos hk]
      · rw [if_neg hk]
        by_cases hs : stripAlias s t = t
        · simpa only [hs, if_true] using ht
        · simpa only [hs, if_false] using ih (stripAlias_mem hs)

/-- Whatever a use of a type leads on to is entered under the name of a result. -/
theorem key_target_mem (ht : targetOf? o s t = some target) :
    keyOf o s target ∈ s.resultNames := by
  apply followAliases_mem
  unfold targetOf? below? at ht
  obtain ⟨hlower, hne⟩ := Option.filter_eq_some_iff.1 ht
  rw [Bool.and_eq_true, decide_eq_true_eq, decide_eq_true_eq] at hne
  cases hr : ruleOf t.kind <;> rw [hr] at hlower
  case element =>
    obtain rfl := Option.some.inj hlower
    exact element_mem hne.2
  case typeAlias =>
    obtain rfl := Option.some.inj hlower
    exact stripAlias_mem hne.1
  all_goals exact nomatch hlower

/-- There are at most two results for each spelling that is defined. -/
theorem card_resultNames_le (s : Script) : s.resultNames.card ≤ 2 * s.types.length := by
  have hlength : ∀ types : List (String × TypeFacts),
      (types.flatMap fun p => (results p.2).map (·.identifier)).length ≤ 2 * types.length := by
    intro types
    induction types with
    | nil => simp
    | cons p types ih =>
        have hp : ((results p.2).map (·.identifier)).length ≤ 2 := by
          unfold results
          cases p.2.target <;> cases p.2.element <;> simp
        rw [List.flatMap_cons, List.length_append, List.length_cons]
        omega
  exact (List.toFinset_card_le _).trans (hlength s.types)

/-- Any use of a type in a script comes to an end. -/
theorem exists_enters_of_results (o : SurveyOptions) (s : Script) (t : DeclaredType)
    (a : Atlas) :
    ∃ calls h a', Enters o s t a calls h a' ∧ calls.length ≤ s.resultNames.card + 2 :=
  exists_enters (fun _ _ => key_target_mem) t a

/-- Reading a declaration leaves less to be read. -/
theorem length_upcoming_next (s : Script) (h : (next s).1.isEmpty = false) :
    (next s).2.cursor.upcoming.length < s.cursor.upcoming.length :=
  Cursor.length_upcoming_of_read h

/-- A survey of what is left in a script comes to an end, with one unit of fuel for each
entry beside what its types need. -/
theorem exists_runs (o : SurveyOptions) (rest : List ScriptEntry) {s : Script} {a : Atlas}
    {fuel : Nat} (hu : s.cursor.upcoming = rest)
    (hf : rest.length + s.resultNames.card + 3 ≤ fuel) :
    ∃ uses a' s', Runs o s a uses a' s' ∧ drain (.standard o) fuel s a = some (a', s') ∧
      ∀ u ∈ uses, u.calls.length ≤ s.resultNames.card + 2 := by
  refine Survey.exists_runs (fun s' => s'.resultNames = s.resultNames)
    (fun s' => s'.cursor.upcoming.length) (fun s' hs => hs) length_upcoming_next
    (fun s' d a hs => ?_) rest.length rfl (by rw [hu]) (by omega)
  rw [← hs]
  exact exists_enters_of_results o s' _ a

/-- Every use of a type and every survey of a script comes to an end, whatever its table of
types. -/
theorem build_terminates (o : SurveyOptions) (s : Script) (id : ArenaId) :
    (∀ t a, ∃ calls h a', Enters o s t a calls h a' ∧
      calls.length ≤ s.resultNames.card + 2 ∧
      resolve (.standard o) s (s.resultNames.card + 2) t a = some (h, a')) ∧
    ∃ uses a s', Runs o s (Atlas.empty id) uses a s' ∧
      build (.standard o) s.reach s id = some (a, s') ∧
      ∀ u ∈ uses, u.calls.length ≤ s.resultNames.card + 2 := by
  constructor
  · intro t a
    obtain ⟨calls, h, a', he, hlen⟩ := exists_enters_of_results o s t a
    exact ⟨calls, h, a', he, hlen, resolve_eq_some_iff.2 ⟨calls, he, hlen⟩⟩
  · apply exists_runs o s.cursor.upcoming rfl
    have hcard := card_resultNames_le s
    have hupcoming : s.cursor.upcoming.length ≤ s.cursor.size := by
      simp [Cursor.upcoming, Cursor.toList, Cursor.size]
    unfold reach
    omega

end Script

end DeclAtlas
