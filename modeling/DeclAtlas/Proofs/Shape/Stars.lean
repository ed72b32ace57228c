import DeclAtlas.Proofs.Shape.Peeling

/-!
# Stars with qualifiers

Besides `const` a pointer can be qualified `volatile` or `restrict`. The reader knows the
layers `*` and `*const` only: at a star with other qualifiers it stops, and the star with all
that stands before it goes into the name. If a blank or `const` follows the star, the
qualifiers after it are words of their own and are left out. Then the name ends in `*` or
`*const`, and the next time it is read this is a layer (`Star.Resurfaces`). Otherwise the
first qualifier is one word with the star and stays.

## Main results

* `Reads.star`: which stars are read as a layer.
* `Star.layerless`: the reader stops at the others.
* `Star.isName`: what is read there is a name if the star does not come back.
-/

namespace DeclAtlas.Shape

open Text

variable {c : Char} {cs : List Char} {s : Shape} {name : String}

/-! ## Qualifiers -/

/-- A word that qualifies a type or a pointer to it. -/
inductive Qualifier where
  | const
  | volatile
  | restrict
  /-- The spelling of `restrict` that is reserved for compilers. -/
  | reservedRestrict
  deriving DecidableEq

namespace Qualifier

def word : Qualifier → List Char
  | const => "const".toList
  | volatile => "volatile".toList
  | restrict => "restrict".toList
  | reservedRestrict => "__restrict".toList

theorem isQualifier (q : Qualifier) : IsQualifier q.word := by cases q <;> decide

theorem isWord (q : Qualifier) : IsWord q.word := by cases q <;> exact ⟨by decide, by decide⟩

theorem isSealed (q : Qualifier) : Sealed q.word := by cases q <;> decide

theorem mem_word (q : Qualifier) : ∀ c ∈ q.word, c ∉ ['*', '&', ']', '('] := by
  cases q <;> decide

theorem word_eq_const_iff {q : Qualifier} : q.word = "const".toList ↔ q = const := by
  cases q <;> decide

/-- Words that qualify. -/
def words (qs : List Qualifier) : List (List Char) := qs.map word

theorem words_append (qs rs : List Qualifier) : words (qs ++ rs) = words qs ++ words rs :=
  List.map_append

theorem const_mem_words {qs : List Qualifier} :
    "const".toList ∈ words qs ↔ Qualifier.const ∈ qs := by
  simp only [words, List.mem_map, word_eq_const_iff, exists_eq_right]

theorem forall_mem_words {P : List Char → Prop} (h : ∀ q : Qualifier, P q.word)
    {qs : List Qualifier} : ∀ w ∈ words qs, P w := by
  intro w hw
  obtain ⟨q, -, rfl⟩ := List.mem_map.1 hw
  exact h q

theorem keptWords_spaced (qs : List Qualifier) : keptWords (spaced (words qs)) = [] := by
  refine keptWords_of_qualifiers ?_
  rw [words_spaced (forall_mem_words isWord)]
  exact forall_mem_words isQualifier

/-- A text that ends in one of the words that name no layer on their own. -/
theorem layerless_append {q : Qualifier} (hq : q ≠ const) (cs : List Char) :
    Layerless (cs ++ q.word).reverse := by
  rw [List.reverse_append]
  cases q with
  | const => exact absurd rfl hq
  | volatile | restrict | reservedRestrict =>
      exact ⟨by rintro c ⟨⟩; decide, takeExtent_none_of_head (by decide) _, rfl⟩

/-- A qualifier ends in a letter. -/
theorem last_append (cs : List Char) (q : Qualifier) :
    ∀ c ∈ (cs ++ q.word).getLast?, isBlank c = false ∧ c ∉ ['*', '&', ']'] := by
  rw [getLast?_of_suffix (List.suffix_append cs q.word) q.isWord.1]
  cases q <;> rintro c ⟨⟩ <;> decide

theorem last_append_spaced {qs : List Qualifier} (hne : qs ≠ []) (cs : List Char) :
    ∀ c ∈ (cs ++ spaced (words qs)).getLast?, isBlank c = false ∧ c ∉ ['*', '&', ']'] := by
  obtain ⟨rs, r, rfl⟩ := (List.eq_nil_or_concat qs).resolve_left hne
  have hsuffix : r.word <:+ spaced (words (rs.concat r)) := by
    rw [List.concat_eq_append, words_append]
    exact spaced_suffix _ [r.word]
  obtain ⟨front, hfront⟩ := hsuffix
  rw [← hfront, ← List.append_assoc]
  exact last_append _ r

/-- A text that ends in a qualifier set apart from it is read as a name if no star ends it. -/
theorem layerless_space_append (hcs : ∀ c ∈ cs.getLast?, isBlank c = false ∧ c ∉ ['*', '&', ']'])
    (q : Qualifier) : Layerless (cs ++ ' ' :: q.word).reverse := by
  by_cases hq : q = const
  · rw [hq, List.reverse_append]
    refine ⟨by rintro c ⟨⟩; decide, takeExtent_none_of_head (by decide) _,
      Option.eq_none_iff_forall_ne_some.2 fun rest hp => ?_⟩
    obtain ⟨blanks, hblanks, heq⟩ := exists_of_takeConstPointer hp
    have hbehind : ' ' :: cs.reverse = blanks ++ '*' :: rest :=
      (List.append_right_inj "tsnoc".toList).1 heq
    have hrev : cs.reverse = '*' :: rest := calc
      cs.reverse = trimStart (' ' :: cs.reverse) := by
          rw [trimStart_append_blank (by decide)]
          exact (trimStart_eq_self fun c hc => (hcs c (by rwa [← List.head?_reverse])).1).symm
      _ = trimStart (blanks ++ '*' :: rest) := congrArg trimStart hbehind
      _ = '*' :: rest := by
          rw [trimStart, List.dropWhile_append_of_pos hblanks]
          rfl
    have hstar : '*' ∈ cs.getLast? := by
      rw [← List.head?_reverse, hrev]
      rfl
    exact absurd List.mem_cons_self (hcs '*' hstar).2
  · rw [← List.singleton_append, ← List.append_assoc]
    exact layerless_append hq _

end Qualifier

/-! ## Stars -/

def spaceIf (apart : Bool) : List Char := if apart then [' '] else []

/-- A star with the qualifiers after it. -/
structure Star where
  /-- Is a space before the star? -/
  apart : Bool
  /-- Is a space after it? -/
  loose : Bool
  qualifiers : List Qualifier
  deriving DecidableEq

namespace Star

variable {star : Star}

def text (star : Star) : List Char :=
  spaceIf star.apart ++ '*' :: (spaceIf star.loose ++ spaced (Qualifier.words star.qualifiers))

def isConst (star : Star) : Bool := star.qualifiers == [.const]

/-- Is the star read as a layer? -/
def isPlain (star : Star) : Bool := star.qualifiers.isEmpty || star.isConst

/-- No qualifier keeps the star from being read as a layer later. -/
def Resurfaces (star : Star) : Prop :=
  star.loose = true ∨ star.qualifiers.head? = some .const

instance (star : Star) : Decidable star.Resurfaces := inferInstanceAs (Decidable (_ ∨ _))

/-- The end of the word with the star. -/
def tip (star : Star) : List Char :=
  if star.loose then ['*'] else '*' :: (star.qualifiers.head?.elim [] Qualifier.word)

/-- The qualifiers that are words of their own. -/
def others (star : Star) : List Qualifier :=
  if star.loose then star.qualifiers else star.qualifiers.tail

theorem exists_cons_of_isPlain (h : star.isPlain = false) :
    ∃ q qs, star.qualifiers = q :: qs ∧ (qs = [] → q ≠ .const) := by
  obtain ⟨apart, loose, qualifiers⟩ := star
  cases qualifiers with
  | nil => exact nomatch h
  | cons q qs =>
      refine ⟨q, qs, rfl, ?_⟩
      rintro rfl rfl
      exact nomatch h

theorem text_eq (h : star.isPlain = false) :
    star.text = spaceIf star.apart ++ spaced (star.tip :: Qualifier.words star.others) := by
  obtain ⟨q, qs, hq, -⟩ := exists_cons_of_isPlain h
  rw [text, tip, others, hq]
  cases star.loose with
  | true => rfl
  | false => cases qs <;> rfl

theorem isWord_tip (star : Star) : IsWord star.tip := by
  obtain ⟨apart, loose, qualifiers⟩ := star
  have hstar : isBlank '*' = false := by decide
  cases loose with
  | true => exact ⟨by simp [tip], by simp [tip, hstar]⟩
  | false =>
      cases qualifiers with
      | nil => exact ⟨by simp [tip], by simp [tip, hstar]⟩
      | cons q qs => exact ⟨by simp [tip], List.forall_mem_cons.2 ⟨hstar, q.isWord.2⟩⟩

theorem mem_tip (star : Star) : '*' ∈ star.tip := by
  rw [tip]
  split <;> exact List.mem_cons_self

theorem mem_text (hc : c ∈ star.text) : c ∉ ['&', ']', '('] := by
  have hspace : ∀ b, c ∈ spaceIf b → c ∉ ['&', ']', '('] := by
    intro b hb
    cases b with
    | false => exact nomatch hb
    | true => rw [List.mem_singleton.1 hb]; decide
  rcases List.mem_append.1 hc with hc | hc
  · exact hspace _ hc
  · rcases List.mem_cons.1 hc with rfl | hc
    · decide
    · rcases List.mem_append.1 hc with hc | hc
      · exact hspace _ hc
      · rcases mem_spaced hc with rfl | ⟨w, hw, hc⟩
        · decide
        · obtain ⟨q, -, rfl⟩ := List.mem_map.1 hw
          exact fun hmem => q.mem_word c hc (List.mem_cons_of_mem _ hmem)

theorem text_ne (star : Star) : star.text ≠ [] := by simp [text]

/-- A star leaves no keyword to be dropped. -/
theorem sealed_append (h : Sealed cs) (star : Star) : Sealed (cs ++ star.text) := by
  have hquals : Unelaborated none (spaced (Qualifier.words star.qualifiers) ++ [' ']) :=
    sealed_spaced (Qualifier.forall_mem_words Qualifier.isWord)
      (Qualifier.forall_mem_words Qualifier.isSealed)
  have hafter : Unelaborated none
      (spaceIf star.loose ++ (spaced (Qualifier.words star.qualifiers) ++ [' '])) := by
    cases star.loose with
    | false => exact hquals
    | true => exact unelaborated_space hquals
  have hbefore : Unelaborated none (cs ++ spaceIf star.apart) := by
    cases star.apart with
    | false => rw [spaceIf, if_neg Bool.false_ne_true, List.append_nil]; exact h.of_append
    | true => exact h
  have hmark : IsMark '*' := ⟨by decide, by decide⟩
  have hall := hbefore.append_mark hmark hafter
  simpa [Sealed, text] using hall

/-- The star is left in the name, with what is one word with it. -/
theorem exists_keptWords (h : star.isPlain = false) (cs : List Char) :
    ∃ ws u, keptWords (cs ++ star.text) = ws ++ [u ++ star.tip] := by
  have hothers : ∀ w ∈ Qualifier.words star.others, IsWord w :=
    Qualifier.forall_mem_words Qualifier.isWord
  obtain ⟨ws, u, hwords⟩ := exists_words_append star.isWord_tip (cs ++ spaceIf star.apart)
  have hall : ∀ w ∈ ws ++ [u ++ star.tip], IsWord w := fun w hw =>
    isWord_of_mem_words (hwords ▸ hw)
  obtain ⟨hws, hlast⟩ := List.forall_mem_append.1 hall
  have hword : IsWord (u ++ star.tip) := hlast _ List.mem_cons_self
  have hfront : keptWords (cs ++ spaceIf star.apart ++ star.tip) =
      keptWords (spaced ws) ++ keptWords (u ++ star.tip) :=
    keptWords_eq_append (by rw [hwords, words_spaced hws, words_word hword])
  have htip : keptWords (u ++ star.tip) = [u ++ star.tip] := by
    rw [← words_word hword]
    refine keptWords_eq_self ?_
    rw [words_word hword]
    rintro w hw hq
    rw [List.mem_singleton.1 hw] at hq
    exact absurd (isWordChar_of_isQualifier hq _ (List.mem_append_right u star.mem_tip)) (by decide)
  refine ⟨keptWords (spaced ws), u, ?_⟩
  calc keptWords (cs ++ star.text)
    _ = keptWords (cs ++ spaceIf star.apart ++ star.tip) ++
          keptWords (spaced (Qualifier.words star.others)) := by
        refine keptWords_eq_append ?_
        rw [text_eq h, ← List.append_assoc, words_append_spaced hothers, words_spaced hothers]
    _ = keptWords (spaced ws) ++ [u ++ star.tip] := by
        rw [Qualifier.keptWords_spaced, List.append_nil, hfront, htip]

/-- No layer ends a text whose last star has qualifiers that are not read with it. -/
theorem layerless (h : star.isPlain = false) (cs : List Char) :
    Layerless (cs ++ star.text).reverse := by
  obtain ⟨q, qs, hq, hconst⟩ := exists_cons_of_isPlain h
  let front := cs ++ (spaceIf star.apart ++ '*' :: spaceIf star.loose)
  have htext : cs ++ star.text = front ++ spaced (Qualifier.words (q :: qs)) := by
    rw [text, hq]
    simp [front]
  rw [htext]
  -- only a single `const` could be part of a layer
  rcases List.eq_nil_or_concat qs with rfl | ⟨rs, r, rfl⟩
  · exact Qualifier.layerless_append (hconst rfl) front
  · have hwords : spaced (Qualifier.words (q :: rs.concat r)) =
        spaced (Qualifier.words (q :: rs)) ++ ' ' :: r.word := by
      rw [List.concat_eq_append, ← List.cons_append, Qualifier.words_append]
      exact spaced_append (List.cons_ne_nil _ _) (List.cons_ne_nil _ _)
    rw [hwords, ← List.append_assoc]
    exact Qualifier.layerless_space_append
      (Qualifier.last_append_spaced (List.cons_ne_nil q rs) front) r

section Core

variable {isConst : Bool}

/-- What is left with such a star is a name that can be spelled and ends with the star. -/
theorem isSpelled (h : star.isPlain = false) (hs : Sealed cs) (hp : '(' ∉ cs)
    (hr : readNamed (cs ++ star.text) = named name isConst) :
    IsSpelled name ∧ star.tip <:+ name.toList := by
  have hname := toList_of_readNamed hr
  have hsealed : Sealed (cs ++ star.text) := sealed_append hs star
  obtain ⟨ws, u, hkept⟩ := exists_keptWords h cs
  refine ⟨⟨isCore_of_readNamed hsealed.of_append hr, ?_, hasStrayParen_of_not_mem ?_⟩, ?_⟩
  · rw [hname]
    refine solid_spaced (by simp [hkept]) (fun _ => isWord_of_mem_keptWords) fun w hw => ?_
    exact hsealed.of_mem_words (mem_keptWords.1 hw).1
  · rw [hname]
    intro hmem
    rcases mem_spaced hmem with hc | ⟨w, hw, hc⟩
    · exact absurd hc (by decide)
    · rcases List.mem_append.1 (mem_of_mem_words (mem_keptWords.1 hw).1 hc) with hc | hc
      · exact hp hc
      · exact mem_text hc (by decide)
  · rw [hname, hkept]
    exact (List.suffix_append u star.tip).trans (spaced_suffix ws [u ++ star.tip])

theorem tip_of_resurfaces (hb : star.Resurfaces) :
    star.tip = "*".toList ∨ star.tip = "*const".toList := by
  rw [tip]
  rcases hb with hb | hb
  · exact .inl (if_pos hb)
  · rw [hb]
    cases star.loose with
    | true => exact .inl rfl
    | false => exact .inr rfl

theorem exists_tip_eq (h : star.isPlain = false) (hb : ¬star.Resurfaces) :
    ∃ q : Qualifier, q ≠ .const ∧ star.tip = '*' :: q.word := by
  obtain ⟨q, qs, hq, -⟩ := exists_cons_of_isPlain h
  obtain ⟨hloose, hhead⟩ := not_or.1 hb
  rw [hq] at hhead
  refine ⟨q, fun hconst => hhead (by rw [hconst]; rfl), ?_⟩
  rw [tip, if_neg hloose, hq]
  rfl

/-- If the star does not come back, this name is read again. -/
theorem isName (h : star.isPlain = false) (hb : ¬star.Resurfaces) (hs : Sealed cs)
    (hp : '(' ∉ cs) (hr : readNamed (cs ++ star.text) = named name isConst) : IsName name := by
  obtain ⟨hspelled, hsuffix⟩ := isSpelled h hs hp hr
  obtain ⟨q, hq, htip⟩ := exists_tip_eq h hb
  rw [htip] at hsuffix
  refine ⟨?_, hspelled.core.spaced, hspelled.core.unqualified, hspelled.solid.isSealed,
    hspelled.parens, ?_, ?_⟩
  · intro hnil
    have hempty : name.toList = [] := by rw [← hspelled.core.spaced, hnil]; rfl
    exact hspelled.solid.ne hempty
  · rw [getLast?_of_suffix hsuffix (List.cons_ne_nil '*' q.word)]
    cases q <;> decide
  · intro hconst
    have hor := List.suffix_or_suffix_of_suffix hconst hsuffix
    cases q with
    | const => exact hq rfl
    | volatile | restrict | reservedRestrict => exact absurd hor (by decide)

end Core

end Star

/-! ## Stars that are layers -/

theorem Reads.spaceIf (h : Reads cs s) (apart : Bool) : Reads (spaceIf apart ++ cs) s := by
  cases apart with
  | false => exact h
  | true => exact .blank (by decide) h

theorem reverse_spaceIf (apart : Bool) : (spaceIf apart).reverse = spaceIf apart := by
  cases apart <;> rfl

/-- A star without qualifiers, or with one `const`, is a layer. -/
theorem Reads.star {star : Star} (h : Reads cs.reverse s) (hp : star.isPlain = true) :
    Reads (cs ++ star.text).reverse (Shape.pointer s star.isConst) := by
  have hrev : (cs ++ star.text).reverse = (spaced (Qualifier.words star.qualifiers)).reverse ++
      (Shape.spaceIf star.loose ++ '*' :: (Shape.spaceIf star.apart ++ cs.reverse)) := by
    simp [Star.text, reverse_spaceIf]
  rw [hrev]
  obtain ⟨apart, loose, qualifiers⟩ := star
  simp only [Star.isPlain, Bool.or_eq_true, List.isEmpty_iff, Star.isConst, beq_iff_eq] at hp
  rcases hp with rfl | rfl
  · exact (Reads.pointer (h.spaceIf apart)).spaceIf loose
  · have htake : takeConstPointer? ("const".toList.reverse ++ (Shape.spaceIf loose ++
        '*' :: (Shape.spaceIf apart ++ cs.reverse))) =
        some (Shape.spaceIf apart ++ cs.reverse) := by
      cases loose <;> rfl
    exact .constPointer htake (h.spaceIf apart)

end DeclAtlas.Shape
