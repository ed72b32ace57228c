import DeclAtlas.Proofs.Shape.Reading

/-!
# Spellings that can be read apart

The spelling of a shape is put together from a core and what each layer adds at its end. It
is clean and has the parentheses of its core alone if every piece is made well: a name of
plain words that ends in no mark, extents without brackets, and no piece with a keyword that
something put after it would turn into one to be dropped. A shape made of such pieces is
`Legible`. A core that ends in a mark can be spelled just as well, but something else is read
from it then; where that does not matter a shape is only asked to be `Spellable`.

A text that can be continued is `Solid`, and what can be put after it is a `Tail`. That the
spelling of a legible shape is solid is one step for each layer.

## Main results

* `Solid.append`: a tail keeps a text solid.
* `solid_spell`: the spelling of a spellable shape is solid.
* `hasStrayParen_spell`: it has a stray parenthesis only if its core is not taken apart.
-/

namespace DeclAtlas.Shape

open Text

variable {c : Char} {cs ds e w : List Char} {ws es : List (List Char)} {s : Shape}
  {name : String} {isConst : Bool}

/-! ## Clean texts put together -/

theorem squeeze_append (h : ∀ c ∈ cs.getLast?, isBlank c = false) (hne : cs ≠ [])
    (inBlanks : Bool) (ds : List Char) :
    squeeze inBlanks (cs ++ ds) = squeeze inBlanks cs ++ squeeze false ds := by
  obtain ⟨cs, c, rfl⟩ := (List.eq_nil_or_concat cs).resolve_left hne
  have hc : isBlank c = false := h c (by simp)
  rw [List.concat_eq_append, List.append_assoc, List.singleton_append, squeeze_append_cons hc,
    squeeze_append_cons hc, List.append_assoc]
  rfl

/-- A visible character ends a run of blanks. -/
theorem squeeze_of_head (h : ∀ c ∈ cs.head?, isBlank c = false) :
    squeeze true cs = squeeze false cs := by
  cases cs with
  | nil => rfl
  | cons c cs =>
      have hc : isBlank c = false := h c rfl
      simp [squeeze, hc]

theorem squeeze_word (hw : IsWord w) : squeeze false w = w := by
  have hall := hw.2
  clear hw
  induction w with
  | nil => rfl
  | cons c w ih =>
      obtain ⟨hc, hw⟩ := List.forall_mem_cons.1 hall
      rw [squeeze, if_neg (by simp [hc]), ih hw]

theorem squeeze_spaced (hw : ∀ w ∈ ws, IsWord w) : squeeze false (spaced ws) = spaced ws := by
  induction ws with
  | nil => rfl
  | cons w ws ih =>
      obtain ⟨hfirst, hrest⟩ := List.forall_mem_cons.1 hw
      cases ws with
      | nil => exact squeeze_word hfirst
      | cons v ws =>
          have hspace : isBlank ' ' = true := by decide
          rw [spaced, squeeze_append hfirst.last hfirst.1, squeeze_word hfirst, squeeze,
            if_pos hspace, if_neg Bool.false_ne_true,
            squeeze_of_head (isTrimmed_spaced hrest).1, ih hrest]

theorem isClean_iff : IsClean cs ↔ clean cs = cs :=
  ⟨clean_of_isClean, fun h => h ▸ isClean_clean cs⟩

instance (cs : List Char) : Decidable (IsClean cs) := decidable_of_iff _ isClean_iff.symm

theorem unelaborated_iff : Unelaborated none cs ↔ dropElaborated none 0 cs = cs := by
  refine ⟨Unelaborated.dropElaborated_eq, fun h => ?_⟩
  rw [← h]
  exact (drops_dropElaborated none cs).unelaborated

instance (cs : List Char) : Decidable (Sealed cs) := decidable_of_iff _ unelaborated_iff.symm

/-! ## Solid texts -/

/-- A clean text that can be continued. -/
structure Solid (cs : List Char) : Prop where
  ne : cs ≠ []
  clean : IsClean cs
  isSealed : Sealed cs

/-- What can be put after a solid text. -/
structure Tail (cs : List Char) : Prop where
  ne : cs ≠ []
  head : ∀ c ∈ cs.head?, isWordChar c = false
  last : ∀ c ∈ cs.getLast?, isBlank c = false
  squeezed : squeeze false cs = cs
  isSealed : Sealed cs

theorem Solid.append (h : Solid cs) (ht : Tail ds) : Solid (cs ++ ds) := by
  have hhead : ∀ c ∈ (ds ++ [' ']).head?, isWordChar c = false := by
    obtain ⟨d, ds, rfl⟩ := List.exists_cons_of_ne_nil ht.ne
    exact ht.head
  have hsealed : Sealed (cs ++ ds) := by
    rw [Sealed, List.append_assoc]
    exact h.isSealed.append ht.isSealed hhead
  refine ⟨by simp [h.ne], ⟨hsealed.of_append, ⟨?_, ?_⟩, ?_⟩, hsealed⟩
  · obtain ⟨c, cs, rfl⟩ := List.exists_cons_of_ne_nil h.ne
    exact h.clean.trimmed.1
  · rw [List.getLast?_append, List.getLast?_eq_some_getLast ht.ne]
    rintro c ⟨⟩
    exact ht.last _ (List.getLast?_eq_some_getLast ht.ne)
  · rw [squeeze_append h.clean.trimmed.2 h.ne, h.clean.squeezed, ht.squeezed]

theorem Solid.tail (h : Solid cs) (hd : ∀ c ∈ cs.head?, isWordChar c = false) : Tail cs :=
  ⟨h.ne, hd, h.clean.trimmed.2, h.clean.squeezed, h.isSealed⟩

/-- Sealed words one space apart are solid. -/
theorem solid_spaced (hne : ws ≠ []) (hw : ∀ w ∈ ws, IsWord w) (hs : ∀ w ∈ ws, Sealed w) :
    Solid (spaced ws) := by
  have hsealed := sealed_spaced hw hs
  refine ⟨fun hnil => hne ?_, ⟨hsealed.of_append, isTrimmed_spaced hw, squeeze_spaced hw⟩, hsealed⟩
  rw [← words_spaced hw, hnil]
  rfl

/-- A solid text can be put after another one with a space. -/
theorem Solid.spaceTail (h : Solid cs) : Tail (' ' :: cs) := by
  have hspace : isBlank ' ' = true := by decide
  refine ⟨by simp, ?_, ?_, ?_, unelaborated_space h.isSealed⟩
  · rintro c ⟨⟩
    decide
  · rw [List.getLast?_cons_of_ne_nil h.ne]
    exact h.clean.trimmed.2
  · rw [squeeze, if_pos hspace, if_neg Bool.false_ne_true, squeeze_of_head h.clean.trimmed.1,
      h.clean.squeezed]

/-! ## Stray parentheses -/

/-- No part of `(anonymous namespace)` goes on into the text. -/
def Apart (cs : List Char) : Prop :=
  ∀ r, r <:+ anonymousNamespace.toList → r <+: cs → r = []

theorem apart_cons (hc : c ∉ anonymousNamespace.toList) (cs : List Char) : Apart (c :: cs) := by
  intro r hr hp
  cases r with
  | nil => rfl
  | cons a r =>
      obtain ⟨rfl, -⟩ := List.cons_prefix_cons.1 hp
      exact absurd (hr.subset List.mem_cons_self) hc

theorem apart_space_cons (hc : c ∉ anonymousNamespace.toList) (cs : List Char) :
    Apart (' ' :: c :: cs) := by
  intro r hr hp
  cases r with
  | nil => rfl
  | cons a r =>
      obtain ⟨rfl, htail⟩ := List.cons_prefix_cons.1 hp
      cases r with
      | nil => exact absurd hr (by decide)
      | cons b r =>
          obtain ⟨rfl, -⟩ := List.cons_prefix_cons.1 htail
          exact absurd (hr.subset (by simp)) hc

private theorem isPrefixOf_append (hd : Apart ds) (cs : List Char) :
    anonymousNamespace.toList.isPrefixOf (cs ++ ds) =
      anonymousNamespace.toList.isPrefixOf cs := by
  rw [Bool.eq_iff_iff, List.isPrefixOf_iff_prefix, List.isPrefixOf_iff_prefix]
  constructor
  · rintro ⟨t, ht⟩
    rcases List.append_eq_append_iff.1 ht with ⟨r, hcs, -⟩ | ⟨r, hname, hds⟩
    · exact ⟨r, hcs.symm⟩
    · obtain rfl := hd r ⟨cs, hname.symm⟩ ⟨t, hds.symm⟩
      exact ⟨[], (List.append_nil _).trans (hname.trans (List.append_nil cs))⟩
  · exact fun h => h.trans (List.prefix_append cs ds)

/-- What stands apart and has no stray parenthesis adds none. -/
theorem hasStrayParen_append (hd : Apart ds) (hp : hasStrayParen ds = false)
    (cs : List Char) : hasStrayParen (cs ++ ds) = hasStrayParen cs := by
  induction cs with
  | nil => exact hp
  | cons c cs ih =>
      rw [List.cons_append, hasStrayParen, hasStrayParen, ih, ← List.cons_append,
        isPrefixOf_append hd]

theorem hasStrayParen_of_not_mem (h : '(' ∉ cs) : hasStrayParen cs = false := by
  induction cs with
  | nil => rfl
  | cons c cs ih =>
      obtain ⟨hc, hcs⟩ := not_or.1 (mt List.mem_cons.2 h)
      simp [hasStrayParen, ih hcs, Ne.symm hc]

/-! ## Legible shapes -/

/-- A name that can be read from wherever a core stands. -/
structure IsName (name : String) : Prop where
  ne : words name.toList ≠ []
  spaced : Text.spaced (words name.toList) = name.toList
  unqualified : ∀ w ∈ words name.toList, ¬IsQualifier w
  isSealed : Sealed name.toList
  parens : hasStrayParen name.toList = false
  unmarked : name.toList.getLast? ∉ [some '*', some '&', some ']']
  unconst : ¬"*const".toList <:+ name.toList

instance (name : String) : Decidable (IsName name) :=
  decidable_of_iff (words name.toList ≠ [] ∧ Text.spaced (words name.toList) = name.toList ∧
    (∀ w ∈ words name.toList, ¬IsQualifier w) ∧ Sealed name.toList ∧
    hasStrayParen name.toList = false ∧
    name.toList.getLast? ∉ [some '*', some '&', some ']'] ∧ ¬"*const".toList <:+ name.toList)
    ⟨fun ⟨h₁, h₂, h₃, h₄, h₅, h₆, h₇⟩ => ⟨h₁, h₂, h₃, h₄, h₅, h₆, h₇⟩,
      fun h => ⟨h.1, h.2, h.3, h.4, h.5, h.6, h.7⟩⟩

/-- A core that can be spelled, whatever is read from its spelling then. -/
structure IsSpelled (name : String) : Prop where
  core : IsCore name
  solid : Solid name.toList
  parens : hasStrayParen name.toList = false

/-- What can stand in the brackets of an array. -/
structure IsExtent (e : List Char) : Prop where
  clean : IsClean e
  bracketless : Bracketless e
  parens : hasStrayParen e = false

/-- A shape whose layers can be told apart in its spelling. -/
def Legible : Shape → Prop
  | named name _ => IsName name
  | pointer s _ | lValueRef s | rValueRef s => Legible s
  | array s extent => Legible s ∧ extent ≠ some "" ∧ IsExtent (extent.getD "").toList
  | verbatim text => Solid text.toList ∧ hasStrayParen text.toList = true

/-- A shape whose spelling is clean and is taken apart, into whatever layers. -/
def Spellable : Shape → Prop
  | named name _ => IsSpelled name
  | pointer s _ | lValueRef s | rValueRef s => Spellable s
  | array s extent => Spellable s ∧ extent ≠ some "" ∧ IsExtent (extent.getD "").toList
  | verbatim text => Solid text.toList ∧ hasStrayParen text.toList = true

theorem bracketless_iff : Bracketless e ↔ '[' ∉ e ∧ ']' ∉ e := by
  constructor
  · exact fun h => ⟨fun hc => (h _ hc).1 rfl, fun hc => (h _ hc).2 rfl⟩
  · rintro ⟨hopen, hclose⟩ c hc
    exact ⟨fun heq => hopen (heq ▸ hc), fun heq => hclose (heq ▸ hc)⟩

instance (e : List Char) : Decidable (IsExtent e) :=
  decidable_of_iff (IsClean e ∧ ('[' ∉ e ∧ ']' ∉ e) ∧ hasStrayParen e = false)
    ⟨fun ⟨h₁, h₂, h₃⟩ => ⟨h₁, bracketless_iff.2 h₂, h₃⟩,
      fun h => ⟨h.1, bracketless_iff.1 h.2, h.3⟩⟩

instance (cs : List Char) : Decidable (Solid cs) :=
  decidable_of_iff (cs ≠ [] ∧ IsClean cs ∧ Sealed cs)
    ⟨fun ⟨h₁, h₂, h₃⟩ => ⟨h₁, h₂, h₃⟩, fun h => ⟨h.1, h.2, h.3⟩⟩

instance decidableLegible : (s : Shape) → Decidable s.Legible
  | named name _ => inferInstanceAs (Decidable (IsName name))
  | pointer s _ | lValueRef s | rValueRef s => decidableLegible s
  | array s extent =>
    have := decidableLegible s
    inferInstanceAs (Decidable
      (s.Legible ∧ extent ≠ some "" ∧ IsExtent (extent.getD "").toList))
  | verbatim text =>
    inferInstanceAs (Decidable (Solid text.toList ∧ hasStrayParen text.toList = true))

theorem Legible.inner (h : Legible s) {t : Shape} (hi : s.inner? = some t) : Legible t := by
  cases s with
  | named | verbatim => exact nomatch hi
  | pointer | lValueRef | rValueRef => exact Option.some.inj hi ▸ h
  | array => exact Option.some.inj hi ▸ h.1

theorem Legible.withConst (h : Legible s) (c : Bool) : Legible (s.withConst c) := by
  induction s with
  | array s extent ih => exact ⟨ih h.1, h.2⟩
  | named | pointer | lValueRef | rValueRef | verbatim => exact h

/-- The core of a legible shape can be read. -/
theorem Legible.isName (h : Legible s) {name : String} (hn : s.named? = some name) :
    IsName name := by
  induction s with
  | named n c => exact Option.some.inj hn ▸ h
  | pointer s c ih => exact ih h hn
  | lValueRef s ih => exact ih h hn
  | rValueRef s ih => exact ih h hn
  | array s extent ih => exact ih h.1 hn
  | verbatim text => exact nomatch hn

/-- A shape stays legible if what its core becomes is legible. -/
theorem Legible.mapNamed (h : Legible s) {f : String → Bool → Shape}
    (hf : ∀ name c, s.named? = some name → Legible (f name c)) : Legible (s.mapNamed f) := by
  induction s with
  | named name c => exact hf name c rfl
  | pointer s c ih => exact ih h hf
  | lValueRef s ih => exact ih h hf
  | rValueRef s ih => exact ih h hf
  | array s extent ih => exact ⟨ih h.1 hf, h.2⟩
  | verbatim text => exact h

theorem IsName.isCore (h : IsName name) : IsCore name :=
  ⟨h.spaced, h.unqualified, h.isSealed.of_append⟩

theorem IsName.solid (h : IsName name) : Solid name.toList := by
  rw [← h.spaced]
  exact solid_spaced h.ne (fun _ => isWord_of_mem_words) fun _ => h.isSealed.of_mem_words

theorem IsName.isSpelled (h : IsName name) : IsSpelled name := ⟨h.isCore, h.solid, h.parens⟩

theorem Legible.spellable (h : Legible s) : Spellable s := by
  induction s with
  | named name c => exact IsName.isSpelled h
  | pointer s c ih => exact ih h
  | lValueRef s ih => exact ih h
  | rValueRef s ih => exact ih h
  | array s extent ih => exact ⟨ih h.1, h.2⟩
  | verbatim text => exact h

theorem solid_const : Solid "const".toList := ⟨by decide, by decide, by decide⟩

theorem IsSpelled.solid_nameText (h : IsSpelled name) (isConst : Bool) :
    Solid (nameText name isConst) := by
  cases isConst with
  | false => exact h.solid
  | true => exact solid_const.append h.solid.spaceTail

theorem IsSpelled.hasStrayParen_nameText (h : IsSpelled name) (isConst : Bool) :
    hasStrayParen (nameText name isConst) = false := by
  cases isConst with
  | false => exact h.parens
  | true => simpa [nameText, hasStrayParen] using h.parens

/-! ## Layers -/

/-- What a layer of a pointer or reference adds. -/
def marks : List (List Char) := ["*".toList, "*const".toList, "&".toList, "&&".toList]

theorem solid_mark (hm : w ∈ marks) : Solid w := by
  have hall : ∀ w ∈ marks, w ≠ [] ∧ IsClean w ∧ Sealed w := by decide
  obtain ⟨hne, hc, hs⟩ := hall w hm
  exact ⟨hne, hc, hs⟩

theorem exists_of_mem_marks (hm : w ∈ marks) :
    ∃ c cs, w = c :: cs ∧ (c = '*' ∨ c = '&') ∧ hasStrayParen w = false := by
  simp only [marks, List.mem_cons, List.not_mem_nil, or_false] at hm
  rcases hm with rfl | rfl | rfl | rfl
  · exact ⟨'*', [], rfl, .inl rfl, by decide⟩
  · exact ⟨'*', "const".toList, rfl, .inl rfl, by decide⟩
  · exact ⟨'&', [], rfl, .inr rfl, by decide⟩
  · exact ⟨'&', ['&'], rfl, .inr rfl, by decide⟩

/-- The space that is left before a mark. -/
def gap (cs : List Char) : List Char :=
  match cs.getLast? with
  | some '*' | some '&' => []
  | _ => [' ']

theorem attach_eq_gap (mark cs : List Char) : attach mark cs = cs ++ gap cs ++ mark := by
  unfold attach gap
  generalize cs.getLast? = last
  split <;> simp

theorem gap_eq (cs : List Char) : gap cs = [] ∨ gap cs = [' '] := by
  unfold gap
  split
  · exact .inl rfl
  · exact .inl rfl
  · exact .inr rfl

theorem Solid.attach (h : Solid cs) (hm : w ∈ marks) : Solid (attach w cs) := by
  rw [attach_eq_gap, List.append_assoc]
  rcases gap_eq cs with hg | hg <;> rw [hg]
  · refine h.append ((solid_mark hm).tail ?_)
    obtain ⟨c, w, rfl, hc, -⟩ := exists_of_mem_marks hm
    rintro c ⟨⟩
    rcases hc with rfl | rfl <;> decide
  · exact h.append (solid_mark hm).spaceTail

theorem hasStrayParen_attach (hm : w ∈ marks) (cs : List Char) :
    hasStrayParen (attach w cs) = hasStrayParen cs := by
  obtain ⟨c, w, rfl, hc, hp⟩ := exists_of_mem_marks hm
  have hmark : c ∉ anonymousNamespace.toList := by rcases hc with rfl | rfl <;> decide
  rw [attach_eq_gap, List.append_assoc]
  rcases gap_eq cs with hg | hg <;> rw [hg]
  · exact hasStrayParen_append (apart_cons hmark w) hp cs
  · refine hasStrayParen_append (apart_space_cons hmark w) ?_ cs
    simpa [hasStrayParen] using hp

theorem isTail_brackets (he : IsExtent e) : Tail ('[' :: e ++ [']']) := by
  refine ⟨by simp, ?_, ?_, ?_, ?_⟩
  · rintro c ⟨⟩
    decide
  · rw [List.getLast?_concat]
    rintro c ⟨⟩
    decide
  · have hopen : squeeze false ([] ++ '[' :: e) = '[' :: squeeze false e :=
      squeeze_append_cons (by decide) false [] e
    rw [List.nil_append] at hopen
    rw [squeeze_append_cons (by decide), hopen, he.clean.squeezed]
    rfl
  · have hinner : Unelaborated none (e ++ ']' :: [' ']) :=
      he.clean.unelaborated.append_mark ⟨by decide, by decide⟩ (unelaborated_space trivial)
    have hempty : Unelaborated none [] := trivial
    have hopen : Unelaborated none ([] ++ '[' :: (e ++ ']' :: [' '])) :=
      hempty.append_mark ⟨by decide, by decide⟩ hinner
    simpa [Sealed] using hopen

theorem Solid.row (h : Solid cs) (he : ∀ e ∈ es, IsExtent e) : Solid (cs ++ rowText es) := by
  induction es generalizing cs with
  | nil => rwa [rowText, List.flatMap_nil, List.append_nil]
  | cons e es ih =>
      obtain ⟨hfirst, hrest⟩ := List.forall_mem_cons.1 he
      have hrow := ih (h.append (isTail_brackets hfirst)) hrest
      rwa [List.append_assoc] at hrow

theorem hasStrayParen_row (he : ∀ e ∈ es, IsExtent e) (cs : List Char) :
    hasStrayParen (cs ++ rowText es) = hasStrayParen cs := by
  induction es generalizing cs with
  | nil => rw [rowText, List.flatMap_nil, List.append_nil]
  | cons e es ih =>
      obtain ⟨hfirst, hrest⟩ := List.forall_mem_cons.1 he
      have hbrackets : hasStrayParen ('[' :: e ++ [']']) = false := by
        have hclose : hasStrayParen (e ++ [']']) = hasStrayParen e :=
          hasStrayParen_append (apart_cons (by decide) []) (by decide) e
        rw [List.cons_append, hasStrayParen, hclose, hfirst.parens]
        rfl
      have hrow := ih hrest (cs ++ ('[' :: e ++ [']']))
      rw [List.append_assoc] at hrow
      rw [rowText, List.flatMap_cons]
      refine hrow.trans (hasStrayParen_append ?_ hbrackets cs)
      exact apart_cons (by decide) _

theorem rowText_concat_brackets (es : List (List Char)) (extent : Option String) :
    rowText es ++ brackets extent = rowText (es ++ [(extent.getD "").toList]) := by
  rw [rowText_concat, brackets]

theorem forall_mem_concat {P : List Char → Prop} (h : ∀ e ∈ es, P e) (he : P e) :
    ∀ e' ∈ es ++ [e], P e' := by
  intro e' he'
  rcases List.mem_append.1 he' with hmem | hmem
  · exact h e' hmem
  · rwa [List.mem_singleton.1 hmem]

/-! ## Spellings of shapes -/

theorem solid_spell (h : Spellable s) (he : ∀ e ∈ es, IsExtent e) :
    Solid (spell s (rowText es)) := by
  induction s generalizing es with
  | named name c => exact (h.solid_nameText c).row he
  | pointer s c ih =>
      have hs : Solid (spell s (rowText [])) := ih h (by simp)
      refine (hs.attach ?_).row he
      cases c <;> simp [marks]
  | lValueRef s ih =>
      have hs : Solid (spell s (rowText [])) := ih h (by simp)
      exact (hs.attach (by simp [marks])).row he
  | rValueRef s ih =>
      have hs : Solid (spell s (rowText [])) := ih h (by simp)
      exact (hs.attach (by simp [marks])).row he
  | array s extent ih =>
      rw [spell, rowText_concat_brackets]
      exact ih h.1 (forall_mem_concat he h.2.2)
  | verbatim text => exact h.1.row he

/-- A spelling has the parentheses of its core. -/
theorem hasStrayParen_spell (h : Spellable s) (he : ∀ e ∈ es, IsExtent e) :
    hasStrayParen (spell s (rowText es)) = s.named?.isNone := by
  induction s generalizing es with
  | named name c => exact (hasStrayParen_row he _).trans (h.hasStrayParen_nameText c)
  | pointer s c ih =>
      have hm : (if c then "*const".toList else ['*']) ∈ marks := by cases c <;> simp [marks]
      have hs : hasStrayParen (spell s (rowText [])) = s.named?.isNone := ih h (by simp)
      exact ((hasStrayParen_row he _).trans (hasStrayParen_attach hm _)).trans hs
  | lValueRef s ih =>
      have hs : hasStrayParen (spell s (rowText [])) = s.named?.isNone := ih h (by simp)
      exact ((hasStrayParen_row he _).trans
        (hasStrayParen_attach (by simp [marks]) _)).trans hs
  | rValueRef s ih =>
      have hs : hasStrayParen (spell s (rowText [])) = s.named?.isNone := ih h (by simp)
      exact ((hasStrayParen_row he _).trans
        (hasStrayParen_attach (by simp [marks]) _)).trans hs
  | array s extent ih =>
      rw [spell, rowText_concat_brackets]
      exact ih h.1 (forall_mem_concat he h.2.2)
  | verbatim text => exact (hasStrayParen_row he _).trans h.2

end DeclAtlas.Shape
