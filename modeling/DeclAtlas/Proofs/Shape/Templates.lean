import DeclAtlas.Proofs.Shape.RoundTrip

/-!
# Names with arguments

The name of a class template with its arguments, as in `Pair<int, const char *>`, is read
word by word like any other name. The brackets and commas hold some words of the arguments
together with what stands beside them: the last word of every argument, and the first word
of the first one. The other words stand alone, and where one of them is a qualifier it is
taken for a qualifier of the whole name.

## Main results

* `parse_templated`: the name with its arguments is read as a name.
* `parse_templated_iff`: it is read as itself if no qualifier stands alone in it.
-/

namespace DeclAtlas.Shape

open Text

variable {c : Char} {cs w : List Char} {n a : String} {rest : List String}

/-! ## Arguments -/

/-- An argument as it is written between the brackets. -/
structure IsArgument (a : String) : Prop where
  ne : words a.toList ≠ []
  spaced : Text.spaced (words a.toList) = a.toList
  unelaborated : Unelaborated none a.toList
  parenless : '(' ∉ a.toList

instance (a : String) : Decidable (IsArgument a) :=
  decidable_of_iff (words a.toList ≠ [] ∧ Text.spaced (words a.toList) = a.toList ∧
    dropElaborated none 0 a.toList = a.toList ∧ '(' ∉ a.toList)
    ⟨fun ⟨h₁, h₂, h₃, h₄⟩ => ⟨h₁, h₂, unelaborated_iff.2 h₃, h₄⟩,
      fun h => ⟨h.1, h.2, unelaborated_iff.1 h.3, h.4⟩⟩

/-- Arguments with commas between them and a closing bracket behind. -/
def closed : String → List String → List Char
  | a, [] => a.toList ++ ['>']
  | a, b :: rest => a.toList ++ ',' :: ' ' :: closed b rest

/-- A template with arguments. -/
def templated (n a : String) (rest : List String) : String :=
  n ++ "<" ++ joinWith ", " (a :: rest) ++ ">"

theorem toList_joinWith (a : String) (rest : List String) :
    (joinWith ", " (a :: rest)).toList ++ ['>'] = closed a rest := by
  induction rest generalizing a with
  | nil => rfl
  | cons b rest ih =>
      rw [closed, ← ih b, joinWith]
      simp

theorem toList_templated (n a : String) (rest : List String) :
    (templated n a rest).toList = n.toList ++ '<' :: closed a rest := by
  rw [← toList_joinWith, templated]
  simp

/-! ## Words of names with arguments -/

/-- The words of a text with a mark put at its end. -/
def wordsWith (cs : List Char) (c : Char) : List (List Char) :=
  (words cs).dropLast ++ [(words cs).getLast?.getD [] ++ [c]]

theorem spaced_wordsWith (hne : words cs ≠ []) (hs : spaced (words cs) = cs) (c : Char) :
    spaced (wordsWith cs c) = cs ++ [c] := by
  have hwords : (words cs).dropLast ++ [(words cs).getLast?.getD []] = words cs := by
    rw [List.getLast?_eq_some_getLast hne]
    exact List.dropLast_append_getLast hne
  rw [wordsWith, ← spaced_append_spaced, hwords, hs]
  rfl

theorem isWord_of_mem_wordsWith (hc : isBlank c = false) (hw : w ∈ wordsWith cs c) :
    IsWord w := by
  rcases List.mem_append.1 hw with hw | hw
  · exact isWord_of_mem_words (List.dropLast_subset _ hw)
  · rw [List.mem_singleton.1 hw]
    refine ⟨by simp, fun d hd => ?_⟩
    rcases List.mem_append.1 hd with hd | hd
    · cases hlast : (words cs).getLast? with
      | none => rw [hlast] at hd; exact nomatch hd
      | some v =>
          rw [hlast] at hd
          exact (isWord_of_mem_words (List.mem_of_getLast? hlast)).2 d hd
    · rwa [List.mem_singleton.1 hd]

/-- A word with a mark is no qualifier. -/
theorem not_isQualifier_of_mem (hc : isWordChar c = false) (hw : c ∈ w) : ¬IsQualifier w := by
  intro hq
  rw [isWordChar_of_isQualifier hq c hw] at hc
  exact nomatch hc

theorem forall_wordsWith (hc : isWordChar c = false) :
    (∀ w ∈ wordsWith cs c, ¬IsQualifier w) ↔ ∀ w ∈ (words cs).dropLast, ¬IsQualifier w := by
  have hlast : ¬IsQualifier ((words cs).getLast?.getD [] ++ [c]) :=
    not_isQualifier_of_mem hc (by simp)
  rw [wordsWith, List.forall_mem_append, List.forall_mem_singleton]
  exact and_iff_left hlast

theorem forall_tail_wordsWith (hc : isWordChar c = false) :
    (∀ w ∈ (wordsWith cs c).tail, ¬IsQualifier w) ↔
      ∀ w ∈ (words cs).dropLast.tail, ¬IsQualifier w := by
  have hlast : ¬IsQualifier ((words cs).getLast?.getD [] ++ [c]) :=
    not_isQualifier_of_mem hc (by simp)
  rw [wordsWith]
  cases (words cs).dropLast with
  | nil => exact Iff.rfl
  | cons v vs =>
      rw [List.cons_append, List.tail_cons, List.tail_cons, List.forall_mem_append,
        List.forall_mem_singleton]
      exact and_iff_left hlast

/-- The words of closed arguments. -/
def argumentWords : String → List String → List (List Char)
  | a, [] => wordsWith a.toList '>'
  | a, b :: rest => wordsWith a.toList ',' ++ argumentWords b rest

theorem argumentWords_ne (a : String) (rest : List String) : argumentWords a rest ≠ [] := by
  cases rest <;> simp [argumentWords, wordsWith]

theorem spaced_argumentWords (ha : IsArgument a) (hrest : ∀ b ∈ rest, IsArgument b) :
    spaced (argumentWords a rest) = closed a rest := by
  induction rest generalizing a with
  | nil => exact spaced_wordsWith ha.ne ha.spaced '>'
  | cons b rest ih =>
      obtain ⟨hb, hrest⟩ := List.forall_mem_cons.1 hrest
      rw [argumentWords, spaced_append (by simp [wordsWith]) (argumentWords_ne b rest),
        spaced_wordsWith ha.ne ha.spaced, ih hb hrest, closed, List.append_assoc]
      rfl

theorem isWord_of_mem_argumentWords (hw : w ∈ argumentWords a rest) : IsWord w := by
  induction rest generalizing a with
  | nil => exact isWord_of_mem_wordsWith (by decide) hw
  | cons b rest ih =>
      rcases List.mem_append.1 hw with hw | hw
      · exact isWord_of_mem_wordsWith (by decide) hw
      · exact ih hw

/-- The words of arguments that stand alone behind the opening bracket. -/
def separateWords (a : String) (rest : List String) : List (List Char) :=
  (words a.toList).dropLast.tail ++ rest.flatMap fun b => (words b.toList).dropLast

theorem forall_argumentWords (a : String) (rest : List String) :
    (∀ w ∈ argumentWords a rest, ¬IsQualifier w) ↔
      ∀ w ∈ (words a.toList).dropLast ++ rest.flatMap fun b => (words b.toList).dropLast,
        ¬IsQualifier w := by
  induction rest generalizing a with
  | nil =>
      rw [argumentWords, forall_wordsWith (by decide), List.flatMap_nil, List.append_nil]
  | cons b rest ih =>
      rw [argumentWords, List.forall_mem_append, forall_wordsWith (by decide), ih,
        List.flatMap_cons, ← List.forall_mem_append]

theorem forall_tail_argumentWords (a : String) (rest : List String) :
    (∀ w ∈ (argumentWords a rest).tail, ¬IsQualifier w) ↔
      ∀ w ∈ separateWords a rest, ¬IsQualifier w := by
  cases rest with
  | nil =>
      rw [argumentWords, forall_tail_wordsWith (by decide), separateWords, List.flatMap_nil,
        List.append_nil]
  | cons b rest =>
      have hne : wordsWith a.toList ',' ≠ [] := by simp [wordsWith]
      rw [argumentWords, List.tail_append_of_ne_nil hne, List.forall_mem_append,
        forall_tail_wordsWith (by decide), forall_argumentWords, separateWords,
        List.flatMap_cons, ← List.forall_mem_append]

/-! ## Reading names with arguments -/

theorem unelaborated_closed (ha : IsArgument a) (hrest : ∀ b ∈ rest, IsArgument b) :
    Unelaborated none (closed a rest) := by
  induction rest generalizing a with
  | nil => exact ha.unelaborated.append_mark ⟨by decide, by decide⟩ trivial
  | cons b rest ih =>
      obtain ⟨hb, hrest⟩ := List.forall_mem_cons.1 hrest
      exact ha.unelaborated.append_mark ⟨by decide, by decide⟩
        (unelaborated_space (ih hb hrest))

theorem parenless_closed (ha : IsArgument a) (hrest : ∀ b ∈ rest, IsArgument b) :
    '(' ∉ closed a rest := by
  induction rest generalizing a with
  | nil => simp [closed, ha.parenless]
  | cons b rest ih =>
      obtain ⟨hb, hrest⟩ := List.forall_mem_cons.1 hrest
      simp [closed, ha.parenless, ih hb hrest]

theorem getLast?_closed (a : String) (rest : List String) :
    (closed a rest).getLast? = some '>' := by
  induction rest generalizing a with
  | nil => exact List.getLast?_concat
  | cons b rest ih => simp [closed, List.getLast?_append, List.getLast?_cons, ih]

section Templated

variable (hn : IsName n) (ha : IsArgument a) (hrest : ∀ b ∈ rest, IsArgument b)

include hn ha hrest

/-- The bracket makes one word of the last one of the name and the first of the arguments. -/
theorem exists_words_templated : ∃ us u v, wordsWith n.toList '<' = us ++ [u] ∧ '<' ∈ u ∧
    words (templated n a rest).toList = us ++ (u ++ v) :: (argumentWords a rest).tail ∧
    spaced (us ++ (u ++ v) :: (argumentWords a rest).tail) = (templated n a rest).toList := by
  obtain ⟨v, vs, hv⟩ := List.exists_cons_of_ne_nil (argumentWords_ne a rest)
  have hus : wordsWith n.toList '<' = (words n.toList).dropLast ++
      [(words n.toList).getLast?.getD [] ++ ['<']] := rfl
  generalize (words n.toList).dropLast = us at hus
  have hopen : '<' ∈ (words n.toList).getLast?.getD [] ++ ['<'] := by simp
  generalize (words n.toList).getLast?.getD [] ++ ['<'] = u at hus hopen
  have htext : spaced (us ++ (u ++ v) :: vs) = (templated n a rest).toList := by
    rw [← spaced_append_spaced, ← hus, ← hv, spaced_wordsWith hn.ne hn.spaced,
      spaced_argumentWords ha hrest, toList_templated, List.append_assoc, List.singleton_append]
  have hword : ∀ w ∈ us ++ (u ++ v) :: vs, IsWord w := by
    have hfront : ∀ w ∈ us ++ [u], IsWord w := fun w hw =>
      isWord_of_mem_wordsWith (by decide) (hus ▸ hw)
    have hbehind : ∀ w ∈ v :: vs, IsWord w := fun w hw => isWord_of_mem_argumentWords (hv ▸ hw)
    obtain ⟨husWord, hu⟩ := List.forall_mem_append.1 hfront
    obtain ⟨hvWord, hvs⟩ := List.forall_mem_cons.1 hbehind
    refine List.forall_mem_append.2 ⟨husWord, List.forall_mem_cons.2 ⟨⟨?_, ?_⟩, hvs⟩⟩
    · exact List.append_ne_nil_of_right_ne_nil u hvWord.1
    · exact List.forall_mem_append.2 ⟨(hu u List.mem_cons_self).2, hvWord.2⟩
  refine ⟨us, u, v, hus, hopen, ?_, ?_⟩
  · rw [← htext, words_spaced hword, hv, List.tail_cons]
  · rw [hv, List.tail_cons, htext]

/-- The words of the name with its arguments are no qualifiers if those are none that stand
alone in the arguments. -/
theorem forall_words_templated : (∀ w ∈ words (templated n a rest).toList, ¬IsQualifier w) ↔
    ∀ w ∈ separateWords a rest, ¬IsQualifier w := by
  obtain ⟨us, u, v, hus, hopen, hwords, -⟩ := exists_words_templated hn ha hrest
  have hname : ∀ w ∈ us, ¬IsQualifier w := by
    have hall := (forall_wordsWith (c := '<') (by decide)).2 fun w hw =>
      hn.unqualified w (List.dropLast_subset _ hw)
    rw [hus] at hall
    exact (List.forall_mem_append.1 hall).1
  have hjoint : ¬IsQualifier (u ++ v) :=
    not_isQualifier_of_mem (by decide) (List.mem_append_left v hopen)
  rw [hwords, List.forall_mem_append, List.forall_mem_cons, forall_tail_argumentWords]
  exact ⟨fun h => h.2.2, fun h => ⟨hname, hjoint, h⟩⟩

theorem spaced_words_templated :
    spaced (words (templated n a rest).toList) = (templated n a rest).toList := by
  obtain ⟨us, u, v, -, -, hwords, htext⟩ := exists_words_templated hn ha hrest
  rw [hwords, htext]

theorem isClean_templated : IsClean (templated n a rest).toList := by
  have hs := spaced_words_templated hn ha hrest
  have hword : ∀ w ∈ words (templated n a rest).toList, IsWord w := fun _ => isWord_of_mem_words
  refine ⟨?_, hs ▸ isTrimmed_spaced hword, hs ▸ squeeze_spaced hword⟩
  rw [toList_templated]
  exact hn.isSealed.of_append.append_mark ⟨by decide, by decide⟩ (unelaborated_closed ha hrest)

omit hn in
theorem hasStrayParen_templated (hp : hasStrayParen n.toList = false) :
    hasStrayParen (templated n a rest).toList = false := by
  have hclosed : '(' ∉ '<' :: closed a rest := by simp [parenless_closed ha hrest]
  rw [toList_templated, hasStrayParen_append (apart_cons (by decide) _)
    (hasStrayParen_of_not_mem hclosed)]
  exact hp

/-- A name with arguments is read as a name. -/
theorem parse_templated :
    parse (templated n a rest) = readNamed (templated n a rest).toList := by
  have hclean := clean_of_isClean (isClean_templated hn ha hrest)
  have hparen := hasStrayParen_templated ha hrest hn.parens
  have hlast : (templated n a rest).toList.getLast? = some '>' := by
    rw [toList_templated, List.getLast?_append, List.getLast?_cons, getLast?_closed]
    rfl
  obtain ⟨front, hfront⟩ := List.getLast?_eq_some_iff.1 hlast
  rw [parse]
  refine (parseChars_eq_iff (by rwa [hclean])).2 ?_
  rw [hclean]
  have hl : Layerless (templated n a rest).toList.reverse := by
    rw [hfront, List.reverse_append]
    exact ⟨by rintro c ⟨⟩; decide, takeExtent_none_of_head (by decide) _, rfl⟩
  have hr := Reads.name hl
  rwa [List.reverse_reverse] at hr

/-- It is read as itself if no qualifier stands alone in it. -/
theorem parse_templated_iff : parse (templated n a rest) = named (templated n a rest) false ↔
    ∀ w ∈ separateWords a rest, ¬IsQualifier w := by
  have hiff := readNamed_eq_self_iff (spaced_words_templated hn ha hrest)
  rw [String.ofList_toList] at hiff
  rw [parse_templated hn ha hrest, hiff, forall_words_templated hn ha hrest]

end Templated

end DeclAtlas.Shape
