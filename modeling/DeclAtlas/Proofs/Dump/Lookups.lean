import DeclAtlas.Proofs.Dump.Names
import Mathlib.Data.List.Induction
import Mathlib.Data.List.Nodup

/-!
# Looking names up

A table of names is filled by one registration after another. What a name means depends on
their order, but what a written name refers to does not: it is the first registered one of
the names tried, and if there is none, the only registered name that it is the end of. Both
can be said of the registered names alone, in whatever order a table keeps them.

A further name changes a lookup in one of two ways. It is tried before the name that was
found, and then it is a name in one of the scopes around; or nothing that was tried had been
registered, and it is tried itself or has the written name as its end.

## Main results

* `registered_perform`: what a registration does to the names of a table.
* `resolve?_eq_iff_refersTo`: a lookup gives what the written name refers to.
* `RefersTo.insert`: what a further name leaves alone.
* `lookup_dependsOnNames`: a lookup depends on nothing but the set of registered names.
-/

namespace DeclAtlas.Dump

open Text

/-! ## Registrations -/

/-- A registration of a name. -/
inductive Registration where
  | insert (name : String) (meaning : NameMeaning)
  /-- The definition of a record. -/
  | define (name : String) (declaration : Declaration)

namespace Registration

def name : Registration → String
  | insert name _ | define name _ => name

def perform (t : NameTable) : Registration → NameTable
  | insert name meaning => t.insert name meaning
  | define name declaration => t.define name declaration

end Registration

namespace NameTable

variable {t t' : NameTable} {name n m : String} {scope : List String} {r? : Option String}
  {rs rs' : List Registration}

/-- The names of a table. -/
def registered (t : NameTable) : List String := t.names.map (·.1)

/-- The table that registrations fill. -/
def ofRegistrations (rs : List Registration) : NameTable := rs.foldl Registration.perform {}

theorem has_iff : t.has name = true ↔ name ∈ t.registered := by
  refine ⟨mem_of_has, fun hmem => ?_⟩
  obtain ⟨p, hp, hname⟩ := List.mem_map.1 hmem
  have hfound : (t.names.find? fun p => p.1 = name).isSome = true :=
    List.find?_isSome.2 ⟨p, hp, by simpa using hname⟩
  rwa [has, get?, Option.isSome_map]

theorem registered_insert (t : NameTable) (name : String) (meaning : NameMeaning) :
    (t.insert name meaning).registered =
      if name ∈ t.registered then t.registered else t.registered ++ [name] := by
  unfold insert
  by_cases hhas : t.has name = true
  · rw [if_pos hhas, if_pos (has_iff.1 hhas)]
  · rw [if_neg hhas, if_neg (mt has_iff.2 hhas)]
    exact List.map_append

/-- A registration adds its name behind the others, unless it is there already. -/
theorem registered_perform (t : NameTable) (r : Registration) :
    (r.perform t).registered =
      if r.name ∈ t.registered then t.registered else t.registered ++ [r.name] := by
  cases r with
  | insert name meaning => exact registered_insert t name meaning
  | define name declaration =>
      show (t.define name declaration).registered =
        if name ∈ t.registered then t.registered else t.registered ++ [name]
      unfold define
      cases hget : t.get? name with
      | none => exact registered_insert t name _
      | some meaning =>
          have hmem : name ∈ t.registered := mem_of_has (by rw [has, hget]; rfl)
          rw [if_pos hmem]
          cases meaning with
          | enumeration | typeAlias => rfl
          | record =>
              show (t.names.map _).map _ = _
              rw [List.map_map]
              refine List.map_congr_left fun p _ => ?_
              show (if p.1 = name then _ else p).1 = p.1
              split
              · rename_i hp
                exact hp.symm
              · rfl

/-- The names of a table that is filled are those of the registrations, each of them once. -/
theorem registered_ofRegistrations (rs : List Registration) :
    (ofRegistrations rs).registered.Nodup ∧
      ∀ n, n ∈ (ofRegistrations rs).registered ↔ n ∈ rs.map (·.name) := by
  unfold ofRegistrations
  induction rs using List.reverseRecOn with
  | nil => exact ⟨List.nodup_nil, fun n => Iff.rfl⟩
  | append_singleton rs r ih =>
      obtain ⟨hnodup, hmem⟩ := ih
      rw [List.foldl_append, List.foldl_cons, List.foldl_nil, registered_perform]
      split
      · rename_i hr
        refine ⟨hnodup, fun n => ?_⟩
        rw [List.map_append, List.mem_append, List.map_singleton, List.mem_singleton, hmem]
        exact (or_iff_left_of_imp fun hn => hn ▸ (hmem _).1 hr).symm
      · rename_i hr
        refine ⟨?_, fun n => ?_⟩
        · exact List.nodup_append.2 ⟨hnodup, List.nodup_singleton _, by
            rintro a ha b hb rfl
            exact hr (List.mem_singleton.1 hb ▸ ha)⟩
        · rw [List.map_append, List.mem_append, List.mem_append, List.map_singleton, hmem]

/-! ## What written names refer to -/

/-- The names that a lookup tries: what stands behind a leading `::`, or else the name in
each of the scopes, from the inside out, and then as it is written. -/
def tried (name : String) (scope : List String) : List String :=
  match dropHead? "::" name with
  | some global => [global]
  | none => candidates name scope ++ [name]

/-- Is the written name, set apart by `::`, the end of `n`? -/
def IsEndOf (name n : String) : Prop :=
  dropHead? "::" name = none ∧ endsWith ("::" ++ name) n = true

instance (name n : String) : Decidable (IsEndOf name n) := inferInstanceAs (Decidable (_ ∧ _))

/-- What a written name refers to if these names are registered. -/
inductive RefersTo (registered : String → Prop) (name : String) (scope : List String) :
    Option String → Prop
  /-- The first of the names tried that is registered. -/
  | found {earlier later : List String} {n : String}
      (htried : tried name scope = earlier ++ n :: later)
      (hearlier : ∀ m ∈ earlier, ¬ registered m) (hfound : registered n) :
      RefersTo registered name scope (some n)
  /-- The only registered name that it is the end of. -/
  | ending {n : String} (hnone : ∀ m ∈ tried name scope, ¬ registered m)
      (honly : ∀ m, registered m ∧ IsEndOf name m ↔ m = n) :
      RefersTo registered name scope (some n)
  | unknown (hnone : ∀ m ∈ tried name scope, ¬ registered m)
      (hnot : ¬ ∃ n, ∀ m, registered m ∧ IsEndOf name m ↔ m = n) :
      RefersTo registered name scope none

/-- A lookup tries names first and then looks for ends. -/
theorem resolve?_eq (t : NameTable) (name : String) (scope : List String) :
    t.resolve? name scope =
      match (tried name scope).find? t.has with
      | some found => some found
      | none =>
        match t.registered.filter (IsEndOf name ·) with
        | [only] => some only
        | _ => none := by
  unfold resolve? tried
  cases hglobal : dropHead? "::" name with
  | some global =>
      have hnone : t.registered.filter (IsEndOf name ·) = [] :=
        List.filter_eq_nil_iff.2 fun n _ => by simp [IsEndOf, hglobal]
      rw [hnone]
      dsimp only
      by_cases hhas : t.has global = true
      · rw [if_pos hhas, List.find?_cons_of_pos hhas]
      · rw [if_neg hhas, List.find?_cons_of_neg hhas]
        rfl
  | none =>
      have hends : t.registered.filter (IsEndOf name ·) = t.endingIn name :=
        List.filter_congr fun n _ => by simp [IsEndOf, hglobal]
      exact hends ▸ rfl

theorem filter_eq_singleton_iff {p : String → Prop} [DecidablePred p] {l : List String}
    (hl : l.Nodup) : l.filter (p ·) = [n] ↔ ∀ m, m ∈ l ∧ p m ↔ m = n := by
  have hmem : ∀ m, m ∈ l.filter (p ·) ↔ m ∈ l ∧ p m := fun m => by simp
  simp only [← hmem]
  constructor
  · intro h m
    rw [h, List.mem_singleton]
  · intro h
    have hsub : (l.filter (p ·)).Perm [n] :=
      (List.perm_ext_iff_of_nodup (hl.filter _) (List.nodup_singleton n)).2 fun m => by
        rw [h, List.mem_singleton]
    exact List.perm_singleton.1 hsub

/-- A lookup gives what the written name refers to, and that is a single answer. -/
theorem resolve?_eq_iff_refersTo (ht : t.registered.Nodup) :
    t.resolve? name scope = r? ↔ RefersTo (· ∈ t.registered) name scope r? := by
  have hnone : (tried name scope).find? t.has = none ↔
      ∀ m ∈ tried name scope, m ∉ t.registered := by
    rw [List.find?_eq_none]
    exact forall₂_congr fun m _ => not_congr has_iff
  rw [resolve?_eq]
  constructor
  · rintro rfl
    split
    · rename_i n hfind
      obtain ⟨hn, earlier, later, htried, hearlier⟩ := List.find?_eq_some_iff_append.1 hfind
      refine .found htried (fun m hm => ?_) (has_iff.1 hn)
      rw [← has_iff]
      simpa using hearlier m hm
    · rename_i hfind
      split
      · rename_i n hends
        exact .ending (hnone.1 hfind) ((filter_eq_singleton_iff ht).1 hends)
      · rename_i hends
        exact .unknown (hnone.1 hfind) fun ⟨n, hn⟩ =>
          hends n ((filter_eq_singleton_iff ht).2 hn)
  · rintro (⟨htried, hearlier, hfound⟩ | ⟨hall, honly⟩ | ⟨hall, hnot⟩)
    · have hfind : (tried name scope).find? t.has = some _ :=
        List.find?_eq_some_iff_append.2 ⟨has_iff.2 hfound, _, _, htried, fun m hm => by
          simpa [← has_iff] using hearlier m hm⟩
      rw [hfind]
    · rw [hnone.2 hall, (filter_eq_singleton_iff ht).2 honly]
    · rw [hnone.2 hall]
      dsimp only
      split
      · rename_i n hends
        exact absurd ⟨n, (filter_eq_singleton_iff ht).1 hends⟩ hnot
      · rfl

/-! ## One more name -/

/-- What is tried before another name is the written name in one of the scopes. -/
theorem qualified_of_tried {earlier later : List String}
    (htried : tried name scope = earlier ++ n :: later) (hm : m ∈ earlier) :
    ∃ p ∈ scope, m = qualify p name := by
  unfold tried at htried
  cases hglobal : dropHead? "::" name with
  | some global =>
      rw [hglobal] at htried
      cases earlier with
      | nil => exact nomatch hm
      | cons a earlier => cases earlier <;> cases htried
  | none =>
      rw [hglobal] at htried
      dsimp only at htried
      -- The last name tried is the written one, so all of `earlier` are candidates.
      have hfront : earlier <+: candidates name scope := by
        refine List.prefix_of_prefix_length_le ⟨n :: later, htried.symm⟩
          (List.prefix_append _ [name]) ?_
        have hlength := congrArg List.length htried
        simp only [List.length_append, List.length_cons, List.length_nil] at hlength
        omega
      obtain ⟨p, hp, rfl⟩ := List.mem_map.1 (hfront.subset hm)
      exact ⟨p, List.mem_reverse.1 hp, rfl⟩

/-- Registering `m` may change a lookup with this result. If the lookup found a name that it
tried, then `m` is tried before that, in one of the scopes. If it did not, then `m` is tried
or the written name is the end of it. -/
structure MayChange (m name : String) (scope : List String) (r? : Option String) : Prop where
  ofFound : ∀ n ∈ tried name scope, r? = some n →
    (∃ earlier later, tried name scope = earlier ++ n :: later ∧ n ∉ earlier ∧ m ∈ earlier) ∧
      ∃ p ∈ scope, m = qualify p name
  ofNotFound : (∀ n ∈ tried name scope, r? ≠ some n) → m ∈ tried name scope ∨ IsEndOf name m

section Insert

variable {registered : String → Prop}

theorem unregistered_insert {names : List String} (h : ∀ n ∈ names, ¬ registered n)
    (hm : m ∉ names) : ∀ n ∈ names, ¬ (registered n ∨ n = m) :=
  fun n hn => not_or.2 ⟨h n hn, fun hnm => hm (hnm ▸ hn)⟩

theorem isEndOf_insert_iff (hm : ¬ IsEndOf name m) (n : String) :
    (registered n ∨ n = m) ∧ IsEndOf name n ↔ registered n ∧ IsEndOf name n := by
  rw [or_and_right]
  exact or_iff_left fun ⟨hnm, hn⟩ => hm (hnm ▸ hn)

/-- A further name leaves a lookup alone that it does not come in the way of. -/
theorem RefersTo.insert (h : RefersTo registered name scope r?) (m : String) :
    RefersTo (fun n => registered n ∨ n = m) name scope r? ∨ MayChange m name scope r? := by
  cases h with
  | @found earlier later n htried hearlier hfound =>
      by_cases hm : m ∈ earlier
      · refine .inr ⟨?_, fun hno => ?_⟩
        · rintro k - ⟨⟩
          exact ⟨⟨earlier, later, htried, fun hn => hearlier n hn hfound, hm⟩,
            qualified_of_tried htried hm⟩
        · exact absurd rfl (hno n (by simp [htried]))
      · exact .inl (.found htried (unregistered_insert hearlier hm) (.inl hfound))
  | @ending n hnone honly =>
      by_cases hm : m ∈ tried name scope ∨ IsEndOf name m
      · refine .inr ⟨?_, fun _ => hm⟩
        rintro k hk ⟨⟩
        exact absurd ((honly n).2 rfl).1 (hnone n hk)
      · obtain ⟨htried, hend⟩ := not_or.1 hm
        refine .inl (.ending (unregistered_insert hnone htried) fun k => ?_)
        rw [isEndOf_insert_iff hend, honly]
  | unknown hnone hnot =>
      by_cases hm : m ∈ tried name scope ∨ IsEndOf name m
      · exact .inr ⟨fun _ _ hr => absurd hr (by simp), fun _ => hm⟩
      · obtain ⟨htried, hend⟩ := not_or.1 hm
        refine .inl (.unknown (unregistered_insert hnone htried) fun ⟨n, hn⟩ => hnot ⟨n, ?_⟩)
        intro k
        rw [← isEndOf_insert_iff hend, hn]

end Insert

/-! ## Tables in any order -/

/-- A lookup in a filled table, whatever the order that the table keeps its names in. -/
theorem resolve?_eq_iff_of_perm (ht : t.names.Perm (ofRegistrations rs).names) :
    t.resolve? name scope = r? ↔ RefersTo (· ∈ rs.map (·.name)) name scope r? := by
  obtain ⟨hnodup, hmem⟩ := registered_ofRegistrations rs
  have hperm : t.registered.Perm (ofRegistrations rs).registered := ht.map _
  have hsame : (fun n => n ∈ t.registered) = fun n => n ∈ rs.map (·.name) :=
    funext fun n => propext (hperm.mem_iff.trans (hmem n))
  rw [resolve?_eq_iff_refersTo (hperm.nodup_iff.2 hnodup), hsame]

/-- A lookup depends on nothing but the set of names that are registered: not on what they
mean, nor on the order of the registrations, nor on the order in which the table keeps them.
A further name changes it only if it comes in its way. -/
theorem lookup_dependsOnNames (ht : t.names.Perm (ofRegistrations rs).names) (name : String)
    (scope : List String) :
    (∀ r?, t.resolve? name scope = r? ↔ RefersTo (· ∈ rs.map (·.name)) name scope r?) ∧
    (∀ (rs' : List Registration) (t' : NameTable),
      (∀ n, n ∈ rs'.map (·.name) ↔ n ∈ rs.map (·.name)) →
      t'.names.Perm (ofRegistrations rs').names →
      t'.resolve? name scope = t.resolve? name scope) ∧
    ∀ (r : Registration) (t' : NameTable), t'.names.Perm (ofRegistrations (rs ++ [r])).names →
      t'.resolve? name scope ≠ t.resolve? name scope →
      MayChange r.name name scope (t.resolve? name scope) := by
  have hrefers : RefersTo (· ∈ rs.map (·.name)) name scope (t.resolve? name scope) :=
    (resolve?_eq_iff_of_perm ht).1 rfl
  refine ⟨fun r? => resolve?_eq_iff_of_perm ht, fun rs' t' hsame ht' => ?_,
    fun r t' ht' hchanged => ?_⟩
  · have hset : (fun n => n ∈ rs'.map (·.name)) = fun n => n ∈ rs.map (·.name) :=
      funext fun n => propext (hsame n)
    rw [resolve?_eq_iff_of_perm ht', hset]
    exact hrefers
  · have hset : (fun n => n ∈ (rs ++ [r]).map (·.name)) =
        fun n => n ∈ rs.map (·.name) ∨ n = r.name := by
      funext n
      rw [List.map_append, List.mem_append, List.map_singleton, List.mem_singleton]
    refine (hrefers.insert r.name).resolve_left fun hunchanged => hchanged ?_
    rw [resolve?_eq_iff_of_perm ht', hset]
    exact hunchanged

/-- Three names in a scope each, and a table that keeps them the other way round. -/
def layouts : List Registration :=
  [.insert "geo::Mesh" (.record default), .define "geo::Mesh::Layout" default,
    .insert "ui::Panel" (.enumeration default)]

theorem lookup_dependsOnNames_reversed :
    let t : NameTable := ⟨(ofRegistrations layouts).names.reverse⟩
    t.names.Perm (ofRegistrations layouts).names ∧
    t.resolve? "Layout" ["ui"] = some "geo::Mesh::Layout" ∧
    RefersTo (· ∈ layouts.map (·.name)) "Layout" ["ui"] (some "geo::Mesh::Layout") ∧
    (ofRegistrations (layouts ++ [.define "ui::Layout" default])).resolve? "Layout" ["ui"] =
      some "ui::Layout" ∧
    MayChange "ui::Layout" "Layout" ["ui"] (some "geo::Mesh::Layout") := by
  intro t
  have ht : t.names.Perm (ofRegistrations layouts).names := List.reverse_perm _
  have hfound : t.resolve? "Layout" ["ui"] = some "geo::Mesh::Layout" := by decide
  have hlater : (ofRegistrations (layouts ++ [.define "ui::Layout" default])).resolve? "Layout"
      ["ui"] = some "ui::Layout" := by decide
  obtain ⟨hrefers, -, hchange⟩ := lookup_dependsOnNames ht "Layout" ["ui"]
  have hmay := hchange (.define "ui::Layout" default) _ (.refl _) (by rw [hlater, hfound]; decide)
  rw [hfound] at hmay
  exact ⟨ht, hfound, (hrefers _).1 hfound, hlater, hmay⟩

end NameTable

end DeclAtlas.Dump
