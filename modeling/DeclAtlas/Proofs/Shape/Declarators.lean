import DeclAtlas.Proofs.Shape.Stars

/-!
# Declarators with qualifiers

A declarator is a name with qualifiers around it, stars with qualifiers, maybe a reference,
and extents. It is read as it is written if its stars have no qualifiers or only one `const`.
And what is read of it is stable if the last one of the other stars, where the reader stops,
keeps its first qualifier.

The induction is on the stars, the last one first, as the reader meets them. A text before
the stars keeps what makes it a name with every star put after it.

## Main results

* `Declarator.parse_eq`: what is read of a declarator.
* `Declarator.parse_render_read`: which declarators are read back.
* `Declarator.stable_iff`: both for the spellings of declarators.
-/

namespace DeclAtlas.Shape

open Text

variable {c : Char} {cs : List Char} {es : List (List Char)} {s : Shape} {name : String}

/-! ## Layers around a core -/

/-- What may follow the stars of a declarator. -/
inductive Reference where
  | none
  | lValue (apart : Bool)
  | rValue (apart : Bool)
  deriving DecidableEq

namespace Reference

def text : Reference → List Char
  | none => []
  | lValue apart => spaceIf apart ++ ['&']
  | rValue apart => spaceIf apart ++ ['&', '&']

def apply : Reference → Shape → Shape
  | none, s => s
  | lValue _, s => lValueRef s
  | rValue _, s => rValueRef s

end Reference

/-- A name with qualifiers around it, stars, maybe a reference, and extents. -/
structure Declarator where
  before : List Qualifier
  name : String
  after : List Qualifier
  stars : List Star
  reference : Reference
  /-- Is a space before the extents? -/
  extentsApart : Bool
  extents : List (List Char)
  isName : IsName name
  parenless : '(' ∉ name.toList
  isExtent : ∀ e ∈ extents, IsExtent e

/-- A text with stars after it, the last one first. -/
def starred (base : List Char) : List Star → List Char
  | [] => base
  | star :: rev => starred base rev ++ star.text

/-- What is read of a text with stars after it. -/
def peel (base : List Char) : List Star → Shape
  | [] => readNamed base
  | star :: rev =>
    if star.isPlain then pointer (peel base rev) star.isConst
    else readNamed (starred base (star :: rev))

namespace Declarator

def base (d : Declarator) : List Char :=
  spaced (Qualifier.words d.before ++ words d.name.toList ++ Qualifier.words d.after)

def isConst (d : Declarator) : Bool := (d.before ++ d.after).contains .const

/-- How the declarator is written. -/
def text (d : Declarator) : List Char :=
  starred d.base d.stars.reverse ++ d.reference.text ++ spaceIf d.extentsApart ++
    rowText d.extents

/-- The reference and the extents around a shape. -/
def around (d : Declarator) (s : Shape) : Shape :=
  d.extents.foldr (fun e s => array s (extentOf e)) (d.reference.apply s)

/-- What is read of the declarator. -/
def read (d : Declarator) : Shape := d.around (peel d.base d.stars.reverse)

/-- What the declarator says. -/
def shape (d : Declarator) : Shape :=
  d.around (d.stars.foldl (fun s star => pointer s star.isConst) (named d.name d.isConst))

/-! ## What stands before the stars -/

variable {d : Declarator}

/-- What holds of the words of the name and of qualifiers holds of all words of the base, also
if only some qualifiers stand after the name. -/
private theorem forall_mem_base {P : List Char → Prop} (d : Declarator) (qs : List Qualifier)
    (hname : ∀ w ∈ words d.name.toList, P w) (hqual : ∀ q : Qualifier, P q.word) :
    ∀ w ∈ Qualifier.words d.before ++ words d.name.toList ++ Qualifier.words qs, P w := by
  have hbefore : ∀ w ∈ Qualifier.words d.before ++ words d.name.toList, P w :=
    List.forall_mem_append.2 ⟨Qualifier.forall_mem_words hqual, hname⟩
  exact List.forall_mem_append.2 ⟨hbefore, Qualifier.forall_mem_words hqual⟩

private theorem isWord_base (d : Declarator) (qs : List Qualifier) :
    ∀ w ∈ Qualifier.words d.before ++ words d.name.toList ++ Qualifier.words qs, IsWord w :=
  forall_mem_base d qs (fun _ => isWord_of_mem_words) Qualifier.isWord

/-- With some of the qualifiers after it, the name ends in no blank and no mark. -/
private theorem last_base (d : Declarator) (qs : List Qualifier) :
    ∀ c ∈ (spaced (Qualifier.words d.before ++ words d.name.toList ++
      Qualifier.words qs)).getLast?, isBlank c = false ∧ c ∉ ['*', '&', ']'] := by
  cases qs with
  | nil =>
      have hsuffix := spaced_suffix (Qualifier.words d.before) (words d.name.toList)
      rw [d.isName.spaced] at hsuffix
      rw [show Qualifier.words [] = [] from rfl, List.append_nil,
        getLast?_of_suffix hsuffix d.isName.solid.ne]
      intro c hc
      refine ⟨d.isName.solid.clean.trimmed.2 c hc, fun hmem => d.isName.unmarked ?_⟩
      rw [hc]
      simpa using hmem
  | cons q qs =>
      obtain ⟨front, hfront⟩ := spaced_suffix
        (Qualifier.words d.before ++ words d.name.toList) (Qualifier.words (q :: qs))
      rw [← hfront]
      exact Qualifier.last_append_spaced (List.cons_ne_nil q qs) front

theorem sealed_base (d : Declarator) : Sealed d.base :=
  sealed_spaced (isWord_base d d.after)
    (forall_mem_base d d.after (fun _ => d.isName.isSealed.of_mem_words) Qualifier.isSealed)

theorem parenless_base (d : Declarator) : '(' ∉ d.base := by
  have hword : ∀ w ∈ Qualifier.words d.before ++ words d.name.toList ++
      Qualifier.words d.after, '(' ∉ w :=
    forall_mem_base d d.after (fun _ hw hmem => d.parenless (mem_of_mem_words hw hmem))
      fun q hmem => q.mem_word _ hmem (by decide)
  intro hmem
  rcases mem_spaced hmem with hc | ⟨w, hw, hc⟩
  · exact absurd hc (by decide)
  · exact hword w hw hc

theorem layerless_base (d : Declarator) : Layerless d.base.reverse := by
  rcases List.eq_nil_or_concat d.after with hnil | ⟨qs, q, hqs⟩
  · have hbase : d.base = spaced (Qualifier.words d.before ++ words d.name.toList) := by
      rw [base, hnil, show Qualifier.words [] = [] from rfl, List.append_nil]
    rw [hbase]
    cases d.before with
    | nil =>
        have hname : spaced (Qualifier.words [] ++ words d.name.toList) = d.name.toList :=
          d.isName.spaced
        rw [hname]
        exact d.isName.layerless_nameText false
    | cons q qs =>
        have hne : Qualifier.words (q :: qs) ≠ [] := List.cons_ne_nil _ _
        rw [spaced_append hne d.isName.ne, d.isName.spaced, List.append_cons]
        refine d.isName.layerless ?_
        rw [List.getLast?_concat]
        rintro c ⟨⟩
        decide
  · have hbase : d.base = spaced (Qualifier.words d.before ++ words d.name.toList ++
        Qualifier.words qs) ++ ' ' :: q.word := by
      rw [base, hqs, List.concat_eq_append, Qualifier.words_append, ← List.append_assoc]
      exact spaced_append (by simp [d.isName.ne]) (List.cons_ne_nil _ _)
    rw [hbase]
    exact Qualifier.layerless_space_append (last_base d qs) q

/-- The name is read without its qualifiers. -/
theorem readNamed_base (d : Declarator) : readNamed d.base = named d.name d.isConst := by
  have hword := isWord_base d d.after
  have hkept : keptWords d.base = words d.name.toList := by
    rw [base, keptWords_spaced_append hword,
      keptWords_spaced_append (List.forall_mem_append.1 hword).1, Qualifier.keptWords_spaced,
      Qualifier.keptWords_spaced, List.nil_append, List.append_nil, d.isName.spaced]
    exact keptWords_eq_self d.isName.unqualified
  have hconst : (words d.base).contains "const".toList = d.isConst := by
    have hname : "const".toList ∉ words d.name.toList := fun hmem =>
      d.isName.unqualified _ hmem (Or.inl rfl)
    rw [base, words_spaced hword, isConst, Bool.eq_iff_iff, List.contains_iff_mem,
      List.contains_iff_mem, List.mem_append, List.mem_append, List.mem_append,
      Qualifier.const_mem_words, Qualifier.const_mem_words, or_iff_left hname]
  rw [readNamed_eq, hkept, hconst, d.isName.spaced, String.ofList_toList]

/-! ## Reading the layers -/

theorem sealed_starred (d : Declarator) (rev : List Star) : Sealed (starred d.base rev) := by
  induction rev with
  | nil => exact sealed_base d
  | cons star rev ih => exact star.sealed_append ih

theorem parenless_starred (d : Declarator) (rev : List Star) : '(' ∉ starred d.base rev := by
  induction rev with
  | nil => exact parenless_base d
  | cons star rev ih =>
      intro hmem
      rcases List.mem_append.1 hmem with hmem | hmem
      · exact ih hmem
      · exact Star.mem_text hmem (by decide)

theorem last_starred (d : Declarator) (rev : List Star) :
    ∀ c ∈ (starred d.base rev).getLast?, c ∉ ['&', ']'] := by
  cases rev with
  | nil =>
      intro c hc hmem
      exact (last_base d d.after c hc).2 (List.mem_cons_of_mem _ hmem)
  | cons star rev =>
      intro c hc hmem
      rw [starred, getLast?_of_suffix (List.suffix_append _ _) star.text_ne] at hc
      refine Star.mem_text (List.mem_of_getLast? hc) ?_
      exact List.mem_append_left ['('] hmem

end Declarator

/-! ## Layers at the end of a text -/

theorem Reads.reference (h : Reads cs.reverse s) (hcs : ∀ c ∈ cs.getLast?, c ∉ ['&', ']'])
    (r : Reference) : Reads (cs ++ r.text).reverse (r.apply s) := by
  have hrev : ∀ apart, (Shape.spaceIf apart ++ cs.reverse).head? ≠ some '&' := by
    intro apart hamp
    cases apart with
    | false => exact hcs '&' (by rwa [← List.head?_reverse]) (by decide)
    | true => exact nomatch hamp
  cases r with
  | none => simpa [Reference.text, Reference.apply] using h
  | lValue apart =>
      have hr := Reads.lValueRef (hrev apart) (h.spaceIf apart)
      simpa [Reference.text, Reference.apply, reverse_spaceIf] using hr
  | rValue apart =>
      have hr := Reads.rValueRef (h.spaceIf apart)
      simpa [Reference.text, Reference.apply, reverse_spaceIf] using hr

theorem last_reference (hcs : ∀ c ∈ cs.getLast?, c ∉ ['&', ']']) (r : Reference) :
    ∀ c ∈ (cs ++ r.text).getLast?, c ≠ ']' := by
  cases r with
  | none =>
      rw [Reference.text, List.append_nil]
      rintro c hc rfl
      exact hcs _ hc (by decide)
  | lValue apart | rValue apart =>
      cases apart <;> simp [Reference.text, spaceIf]

theorem Reads.rowApart (h : Reads cs.reverse s) (hcs : ∀ c ∈ cs.getLast?, c ≠ ']')
    (apart : Bool) (he : ∀ e ∈ es, IsExtent e) :
    Reads (cs ++ Shape.spaceIf apart ++ rowText es).reverse
      (es.foldr (fun e s => Shape.array s (extentOf e)) s) := by
  rw [List.reverse_append, List.reverse_append, reverse_spaceIf]
  refine (h.spaceIf apart).row_append ?_ he
  cases apart with
  | true => exact takeExtent_none_of_head (by decide) _
  | false =>
      show takeExtent? cs.reverse = none
      cases hrev : cs.reverse with
      | nil => rfl
      | cons c ds =>
          refine takeExtent_none_of_head (hcs c ?_) ds
          rw [← List.head?_reverse, hrev]
          rfl

namespace Declarator

variable {d : Declarator}

theorem reads_peel (d : Declarator) (rev : List Star) :
    Reads (starred d.base rev).reverse (peel d.base rev) := by
  induction rev with
  | nil =>
      have hr := Reads.name (layerless_base d)
      rwa [List.reverse_reverse] at hr
  | cons star rev ih =>
      rw [peel]
      split
      · rename_i hplain
        exact ih.star hplain
      · rename_i hplain
        have hr := Reads.name (star.layerless (eq_false_of_ne_true hplain) (starred d.base rev))
        rwa [List.reverse_reverse] at hr

theorem reads_text (d : Declarator) : Reads d.text.reverse d.read := by
  have hlast := last_starred d d.stars.reverse
  have hreference := (reads_peel d d.stars.reverse).reference hlast d.reference
  exact hreference.rowApart (last_reference hlast d.reference) d.extentsApart d.isExtent

theorem hasStrayParen_text (d : Declarator) : hasStrayParen d.text = false := by
  rw [text, hasStrayParen_row d.isExtent]
  refine hasStrayParen_of_not_mem fun hmem => ?_
  rcases List.mem_append.1 hmem with hmem | hmem
  · rcases List.mem_append.1 hmem with hmem | hmem
    · exact parenless_starred d _ hmem
    · cases hr : d.reference with
      | none => rw [hr] at hmem; exact nomatch hmem
      | lValue apart | rValue apart =>
          rw [hr] at hmem
          cases apart <;> exact absurd hmem (by decide)
  · cases ha : d.extentsApart <;> rw [ha] at hmem <;> exact absurd hmem (by decide)

/-- What is read of a declarator. -/
theorem parse_eq {spelling : String} (ht : clean spelling.toList = d.text) :
    parse spelling = d.read := by
  rw [parse]
  refine (parseChars_eq_iff (by rw [ht]; exact hasStrayParen_text d)).2 ?_
  rw [ht]
  exact reads_text d

/-! ## Reading again -/

theorem legible_peel {rev : List Star}
    (h : ∀ star ∈ rev.find? (fun star => !star.isPlain), ¬star.Resurfaces) :
    Legible (peel d.base rev) := by
  induction rev with
  | nil =>
      rw [peel, readNamed_base]
      exact d.isName
  | cons star rev ih =>
      rw [peel]
      split
      · rename_i hplain
        rw [List.find?_cons_of_neg (by simp [hplain])] at h
        exact ih h
      · rename_i hplain
        have hhidden := eq_false_of_ne_true hplain
        rw [List.find?_cons_of_pos (by simp [hhidden])] at h
        rw [readNamed_eq]
        exact Star.isName hhidden (h star rfl) (sealed_starred d rev) (parenless_starred d rev)
          (readNamed_eq _)

theorem spellable_peel (d : Declarator) (rev : List Star) : Spellable (peel d.base rev) := by
  induction rev with
  | nil =>
      rw [peel, readNamed_base]
      exact d.isName.isSpelled
  | cons star rev ih =>
      rw [peel]
      split
      · exact ih
      · rename_i hplain
        rw [readNamed_eq]
        exact (Star.isSpelled (eq_false_of_ne_true hplain) (sealed_starred d rev)
          (parenless_starred d rev) (readNamed_eq _)).1

/-- The name that is read ends with the star at which the reader stops. -/
theorem exists_named_peel {rev : List Star} {star : Star}
    (h : rev.find? (fun star => !star.isPlain) = some star) :
    ∃ name, (peel d.base rev).named? = some name ∧ star.tip <:+ name.toList := by
  induction rev with
  | nil => exact nomatch h
  | cons head rev ih =>
      rw [peel]
      split
      · rename_i hplain
        rw [List.find?_cons_of_neg (by simp [hplain])] at h
        exact ih h
      · rename_i hplain
        have hhidden := eq_false_of_ne_true hplain
        rw [List.find?_cons_of_pos (by simp [hhidden])] at h
        obtain rfl := Option.some.inj h
        rw [readNamed_eq]
        exact ⟨_, rfl, (Star.isSpelled hhidden (sealed_starred d rev)
          (parenless_starred d rev) (readNamed_eq _)).2⟩

/-- The stars are layers around a name, and no reference is among them. -/
theorem collapsed_peel (base : List Char) (rev : List Star) :
    (peel base rev).Collapsed ∧ (peel base rev).isReference = false ∧
      (peel base rev).named?.isSome = true := by
  induction rev with
  | nil => exact ⟨trivial, rfl, rfl⟩
  | cons star rev ih =>
      obtain ⟨hcollapsed, -, hname⟩ := ih
      rw [peel]
      split
      · exact ⟨hcollapsed, rfl, hname⟩
      · exact ⟨trivial, rfl, rfl⟩

theorem peel_of_isPlain {rev : List Star} (h : ∀ star ∈ rev, star.isPlain = true) :
    peel d.base rev =
      rev.foldr (fun star s => pointer s star.isConst) (named d.name d.isConst) := by
  induction rev with
  | nil => exact readNamed_base d
  | cons star rev ih =>
      obtain ⟨hplain, hrev⟩ := List.forall_mem_cons.1 h
      rw [peel, if_pos hplain, ih hrev, List.foldr_cons]

end Declarator

/-! ## References and extents around what is read -/

theorem extentOf_spec {e : List Char} (he : IsExtent e) :
    extentOf e ≠ some "" ∧ ((extentOf e).getD "").toList = e := by
  have htrim : trimChars e = e := IsTrimmed.trimChars_eq he.clean.trimmed
  cases e with
  | nil => exact ⟨by decide, rfl⟩
  | cons c e =>
      have hextent : extentOf (c :: e) = some (String.ofList (c :: e)) := by
        rw [extentOf, htrim]
        rfl
      rw [hextent, Option.getD_some, String.toList_ofList]
      refine ⟨fun hempty => ?_, rfl⟩
      have hnil := congrArg String.toList (Option.some.inj hempty)
      rw [String.toList_ofList] at hnil
      exact List.cons_ne_nil c e hnil

/-- What holds of a shape holds of rows of extents around it, if one extent keeps it. -/
theorem row_induct {P : Shape → Prop}
    (harray : ∀ s e, P s → e ≠ some "" → IsExtent (e.getD "").toList → P (array s e))
    (h : P s) (he : ∀ e ∈ es, IsExtent e) :
    P (es.foldr (fun e s => Shape.array s (extentOf e)) s) := by
  induction es with
  | nil => exact h
  | cons e es ih =>
      obtain ⟨hfirst, hrest⟩ := List.forall_mem_cons.1 he
      obtain ⟨hne, htext⟩ := extentOf_spec hfirst
      exact harray _ _ (ih hrest) hne (htext.symm ▸ hfirst)

theorem Legible.row (h : Legible s) (he : ∀ e ∈ es, IsExtent e) :
    Legible (es.foldr (fun e s => Shape.array s (extentOf e)) s) :=
  row_induct (fun _ _ hs hne hextent => ⟨hs, hne, hextent⟩) h he

theorem Spellable.row (h : Spellable s) (he : ∀ e ∈ es, IsExtent e) :
    Spellable (es.foldr (fun e s => Shape.array s (extentOf e)) s) :=
  row_induct (fun _ _ hs hne hextent => ⟨hs, hne, hextent⟩) h he

theorem Collapsed.row (h : s.Collapsed) (es : List (List Char)) :
    (es.foldr (fun e s => Shape.array s (extentOf e)) s).Collapsed := by
  induction es with
  | nil => exact h
  | cons e es ih => exact ih

theorem named?_row (es : List (List Char)) (s : Shape) :
    (es.foldr (fun e s => array s (extentOf e)) s).named? = s.named? := by
  induction es with
  | nil => rfl
  | cons e es ih => exact ih

namespace Declarator

variable {d : Declarator}

theorem named?_around (d : Declarator) (s : Shape) : (d.around s).named? = s.named? := by
  rw [around, named?_row]
  cases d.reference <;> rfl

theorem legible_around (d : Declarator) (h : Legible s) : Legible (d.around s) := by
  refine Legible.row ?_ d.isExtent
  cases d.reference <;> exact h

theorem spellable_around (d : Declarator) (h : Spellable s) : Spellable (d.around s) := by
  refine Spellable.row ?_ d.isExtent
  cases d.reference <;> exact h

theorem collapsed_around (d : Declarator) (h : s.Collapsed) (hs : s.isReference = false) :
    (d.around s).Collapsed := by
  refine Collapsed.row ?_ d.extents
  cases d.reference with
  | none | rValue => exact h
  | lValue => exact ⟨hs, h⟩

/-- A declarator is read back if, of the stars that are not read as layers, the last one does
not come back. -/
theorem parse_render_read (d : Declarator) : parse d.read.render = d.read ↔
    ∀ star ∈ d.stars.reverse.find? (fun star => !star.isPlain), ¬star.Resurfaces := by
  constructor
  · intro hread star hstar hb
    obtain ⟨name, hname, hsuffix⟩ := exists_named_peel (d := d) hstar
    refine parse_render_ne (spellable_around d (spellable_peel d d.stars.reverse))
      ((named?_around d _).trans hname) ?_ hread
    rcases Star.tip_of_resurfaces hb with htip | htip <;> rw [htip] at hsuffix
    · exact .inl hsuffix
    · exact .inr hsuffix
  · intro h
    obtain ⟨hcollapsed, hreference, hname⟩ := collapsed_peel d.base d.stars.reverse
    have hlegible := legible_around d (legible_peel (d := d) h)
    have hwell : d.read.WellFormed :=
      ⟨hlegible, (congrArg Option.isSome (named?_around d _)).trans hname,
        collapsed_around d hcollapsed hreference⟩
    exact parse_render_of_faithful hlegible hwell.faithful

/-- The spelling of a declarator is stable if, of the stars that are not read as layers, the
last one does not come back. Without such stars it is read as it is written. -/
theorem stable_iff (d : Declarator) {spelling : String} (ht : clean spelling.toList = d.text) :
    (Stable spelling ↔
      ∀ star ∈ d.stars.reverse.find? (fun star => !star.isPlain), ¬star.Resurfaces) ∧
    ((∀ star ∈ d.stars, star.isPlain = true) → parse spelling = d.shape) := by
  have hp := parse_eq ht
  constructor
  · rw [Stable, hp]
    exact parse_render_read d
  · intro hplain
    rw [hp, read, shape, peel_of_isPlain fun star hs => hplain star (List.mem_reverse.1 hs),
      List.foldr_reverse]

/-- The star before the last is where the reader stops. The first one would come back. -/
def tightStars : Declarator where
  before := [.const]
  name := "Box<int, 3>"
  after := [.volatile]
  stars := [⟨true, true, [.volatile]⟩, ⟨true, false, [.restrict, .const]⟩, ⟨true, true, [.const]⟩]
  reference := .lValue true
  extentsApart := false
  extents := ["2".toList, []]
  isName := by decide +kernel
  parenless := by decide
  isExtent := by decide +kernel

/-- All stars are layers. -/
def plainStars : Declarator :=
  { tightStars with stars := [⟨true, false, [.const]⟩, ⟨true, false, []⟩] }

def tightSpelling : String :=
  "const struct Box<int,  3> volatile * volatile *restrict const * const &[2][]"

def plainSpelling : String := "const class Box<int, 3> volatile *const * &[2][]"

theorem stable_iff_tightStars :
    (clean tightSpelling.toList = tightStars.text ∧ Stable tightSpelling) ∧
    clean plainSpelling.toList = plainStars.text ∧ Stable plainSpelling ∧
      parse plainSpelling = plainStars.shape := by
  have htight : clean tightSpelling.toList = tightStars.text := by decide +kernel
  have hplain : clean plainSpelling.toList = plainStars.text := by decide +kernel
  obtain ⟨hiff, hshape⟩ := plainStars.stable_iff hplain
  exact ⟨⟨htight, (tightStars.stable_iff htight).1.2 (by decide)⟩, hplain, hiff.2 (by decide),
    hshape (by decide)⟩

/-- A pointer that is const and volatile. -/
def volatilePointer : Declarator where
  before := []
  name := "int"
  after := []
  stars := [⟨true, false, [.const, .volatile]⟩]
  reference := .none
  extentsApart := false
  extents := []
  isName := by decide +kernel
  parenless := by decide
  isExtent := by decide

/-- Its star comes back, since `volatile` is left out only after the layers were read. -/
theorem unstable_volatilePointer :
    clean "int *const volatile".toList = volatilePointer.text ∧
    parse "int *const volatile" = named "int *const" false ∧
    parse (named "int *const" false).render = pointer (named "int" false) true ∧
    ¬Stable "int *const volatile" := by
  decide +kernel

end Declarator

end DeclAtlas.Shape
