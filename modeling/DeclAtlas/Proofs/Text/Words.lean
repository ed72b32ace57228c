import DeclAtlas.Text.Blank
import DeclAtlas.Text.Segment
import DeclAtlas.Text.WordChar
import Mathlib.Data.List.Induction

/-!
# Words of a text

A text is its words with blanks around them. Blanks at the ends can go and every run of
blanks can become a single one without changing the words, and words with single spaces
between them are the words of that text.

## Main results

* `isWordChar_of_isBlank`: no blank is a word character.
* `words_trimChars`: trimming keeps the words.
* `words_spaced`: words set apart by spaces are read back.
-/

namespace DeclAtlas.Text

variable {c : Char} {cs w : List Char}

/-- The characters of a text are gone through, and not all characters there are. -/
instance (priority := high) decidableForallMem (p : Char → Prop) [DecidablePred p]
    (cs : List Char) : Decidable (∀ c ∈ cs, p c) := List.decidableBAll p cs

/-- The code points of the blanks. -/
private def blankPoints : List Nat :=
  [9, 10, 11, 12, 13, 0x20, 0x85, 0xA0, 0x1680, 0x2000, 0x2001, 0x2002, 0x2003, 0x2004, 0x2005,
    0x2006, 0x2007, 0x2008, 0x2009, 0x200A, 0x2028, 0x2029, 0x202F, 0x205F, 0x3000]

private theorem mem_blankPoints (h : isBlank c = true) : c.toNat ∈ blankPoints := by
  simp only [isBlank, Bool.or_eq_true, Bool.and_eq_true, decide_eq_true_eq, beq_iff_eq] at h
  simp only [blankPoints, List.mem_cons, List.not_mem_nil, or_false]
  omega

/-- No blank is a word character. -/
theorem isWordChar_of_isBlank (h : isBlank c = true) : isWordChar c = false := by
  have hall : ∀ n ∈ blankPoints, isWordChar (Char.ofNat n) = false := by decide +kernel
  have hc := hall c.toNat (mem_blankPoints h)
  rwa [Char.ofNat_toNat] at hc

/-! ## Trimming -/

theorem trimStart_cons (h : isBlank c = false) (cs : List Char) :
    trimStart (c :: cs) = c :: cs := by
  simp [trimStart, h]

theorem trimEnd_concat (h : isBlank c = false) (cs : List Char) :
    trimEnd (cs ++ [c]) = cs ++ [c] := by
  simp [trimEnd, h]

/-- Only what stands before a visible character can be trimmed at the front. -/
theorem trimStart_append_cons (h : isBlank c = false) (cs ds : List Char) :
    trimStart (cs ++ c :: ds) = trimStart cs ++ c :: ds := by
  induction cs with
  | nil => exact trimStart_cons h ds
  | cons b cs ih =>
      by_cases hb : isBlank b = true
      · rw [List.cons_append, trimStart_append_blank hb, trimStart_append_blank hb, ih]
      · rw [List.cons_append, trimStart_cons (eq_false_of_ne_true hb),
          trimStart_cons (eq_false_of_ne_true hb), List.cons_append]

/-- A text without blanks at its ends. -/
def IsTrimmed (cs : List Char) : Prop :=
  (∀ c ∈ cs.head?, isBlank c = false) ∧ ∀ c ∈ cs.getLast?, isBlank c = false

theorem head_trimStart (cs : List Char) : ∀ c ∈ (trimStart cs).head?, isBlank c = false := by
  induction cs with
  | nil => simp
  | cons b cs ih =>
      by_cases hb : isBlank b = true
      · rwa [trimStart_append_blank hb]
      · rw [trimStart_cons (eq_false_of_ne_true hb)]
        simpa using eq_false_of_ne_true hb

theorem trimStart_eq_self (h : ∀ c ∈ cs.head?, isBlank c = false) : trimStart cs = cs := by
  cases cs with
  | nil => rfl
  | cons c cs => exact trimStart_cons (h c rfl) cs

theorem trimEnd_eq_reverse (cs : List Char) : trimEnd cs = (trimStart cs.reverse).reverse := rfl

theorem trimEnd_eq_self (h : ∀ c ∈ cs.getLast?, isBlank c = false) : trimEnd cs = cs := by
  rw [trimEnd_eq_reverse, trimStart_eq_self, List.reverse_reverse]
  simpa using h

theorem IsTrimmed.trimChars_eq (h : IsTrimmed cs) : trimChars cs = cs := by
  rw [trimChars, trimStart_eq_self h.1, trimEnd_eq_self h.2]

theorem trimStart_suffix (cs : List Char) : trimStart cs <:+ cs := List.dropWhile_suffix _

theorem trimEnd_isPrefix (cs : List Char) : trimEnd cs <+: cs := by
  rw [trimEnd_eq_reverse, ← List.reverse_suffix, List.reverse_reverse]
  exact trimStart_suffix _

theorem isTrimmed_trimChars (cs : List Char) : IsTrimmed (trimChars cs) := by
  constructor
  · intro c hc
    obtain ⟨rest, hrest⟩ := trimEnd_isPrefix (trimStart cs)
    refine head_trimStart cs c ?_
    rw [← hrest, ← trimChars]
    cases h : trimChars cs with
    | nil => simp [h] at hc
    | cons d ds => simpa [h] using hc
  · intro c hc
    refine head_trimStart (trimStart cs).reverse c ?_
    rw [trimChars, trimEnd_eq_reverse, List.getLast?_reverse] at hc
    exact hc

/-! ## Words -/

/-- A run of characters none of which is a blank. -/
def IsWord (w : List Char) : Prop := w ≠ [] ∧ ∀ c ∈ w, isBlank c = false

theorem IsWord.head (hw : IsWord w) (cs : List Char) :
    ∀ c ∈ (w ++ cs).head?, isBlank c = false := by
  obtain ⟨c, w, rfl⟩ := List.exists_cons_of_ne_nil hw.1
  rintro c ⟨⟩
  exact hw.2 c List.mem_cons_self

theorem IsWord.last (hw : IsWord w) : ∀ c ∈ w.getLast?, isBlank c = false :=
  fun c hc => hw.2 c (List.mem_of_getLast? hc)

theorem wordsFrom_append (hw : ∀ c ∈ w, isBlank c = false) (acc cs : List Char) :
    wordsFrom acc (w ++ cs) = wordsFrom (w.reverse ++ acc) cs := by
  induction w generalizing acc with
  | nil => rfl
  | cons c w ih =>
      obtain ⟨hc, hw⟩ := List.forall_mem_cons.1 hw
      rw [List.cons_append, wordsFrom, if_neg (by simp [hc]), ih hw, List.reverse_cons,
        List.append_assoc, List.singleton_append]

theorem words_blank (h : isBlank c = true) (cs : List Char) : words (c :: cs) = words cs := by
  rw [words, wordsFrom, if_pos h]
  rfl

/-- Blanks before a text are not words. -/
theorem words_append_of_blanks (hcs : ∀ c ∈ cs, isBlank c = true) (ds : List Char) :
    words (cs ++ ds) = words ds := by
  induction cs with
  | nil => rfl
  | cons c cs ih =>
      obtain ⟨hc, hcs⟩ := List.forall_mem_cons.1 hcs
      rw [List.cons_append, words_blank hc, ih hcs]

private theorem wordsFrom_append_blank (h : isBlank c = true) (acc cs ds : List Char) :
    wordsFrom acc (cs ++ c :: ds) = wordsFrom acc cs ++ words ds := by
  induction cs generalizing acc with
  | nil =>
      rw [List.nil_append, wordsFrom.eq_def acc (c :: ds), wordsFrom]
      simp only [h, if_true]
      split <;> rfl
  | cons b cs ih =>
      rw [List.cons_append, wordsFrom, wordsFrom, ih, ih]
      split
      · split <;> rfl
      · rfl

/-- A blank ends a word. -/
theorem words_append_blank (h : isBlank c = true) (cs ds : List Char) :
    words (cs ++ c :: ds) = words cs ++ words ds :=
  wordsFrom_append_blank h [] cs ds

/-- What a blank sets apart has its own words. -/
theorem words_append_of_last (hb : ∀ c ∈ cs.getLast?, isBlank c = true) (ds : List Char) :
    words (cs ++ ds) = words cs ++ words ds := by
  rcases List.eq_nil_or_concat cs with rfl | ⟨cs, b, rfl⟩
  · rfl
  · have hblank : isBlank b = true := hb b (by simp)
    rw [List.concat_eq_append, List.append_assoc, List.singleton_append,
      words_append_blank hblank, words_append_blank hblank]
    exact congrArg (· ++ words ds) (List.append_nil _).symm

theorem words_word (hw : IsWord w) : words w = [w] := by
  have h := wordsFrom_append hw.2 [] []
  rw [List.append_nil, List.append_nil] at h
  rw [words, h, wordsFrom, if_neg (by simpa using hw.1), List.reverse_reverse]

theorem words_word_blank (hw : IsWord w) (h : isBlank c = true) (cs : List Char) :
    words (w ++ c :: cs) = w :: words cs := by
  rw [words, wordsFrom_append hw.2, List.append_nil, wordsFrom, if_pos h,
    if_neg (by simpa using hw.1), List.reverse_reverse]
  rfl

private theorem isWord_of_mem_wordsFrom {acc : List Char}
    (hacc : ∀ c ∈ acc, isBlank c = false) (hw : w ∈ wordsFrom acc cs) : IsWord w := by
  induction cs generalizing acc with
  | nil =>
      rw [wordsFrom] at hw
      split at hw
      · exact nomatch hw
      · rename_i hne
        rw [List.mem_singleton.1 hw]
        exact ⟨by simpa using hne, by simpa using hacc⟩
  | cons c cs ih =>
      rw [wordsFrom] at hw
      split at hw
      · split at hw
        · exact ih (by simp) hw
        · rename_i hne
          rcases List.mem_cons.1 hw with rfl | hw
          · exact ⟨by simpa using hne, by simpa using hacc⟩
          · exact ih (by simp) hw
      · rename_i hc
        exact ih (List.forall_mem_cons.2 ⟨eq_false_of_ne_true hc, hacc⟩) hw

theorem isWord_of_mem_words (hw : w ∈ words cs) : IsWord w :=
  isWord_of_mem_wordsFrom (by simp) hw

private theorem mem_of_mem_wordsFrom {acc : List Char} (hw : w ∈ wordsFrom acc cs)
    (hc : c ∈ w) : c ∈ acc ∨ c ∈ cs := by
  induction cs generalizing acc with
  | nil =>
      rw [wordsFrom] at hw
      split at hw
      · exact nomatch hw
      · rw [List.mem_singleton.1 hw] at hc
        exact .inl (List.mem_reverse.1 hc)
  | cons a cs ih =>
      rw [wordsFrom] at hw
      split at hw
      · split at hw
        · exact .inr (List.mem_cons_of_mem a ((ih hw).resolve_left (List.not_mem_nil)))
        · rcases List.mem_cons.1 hw with rfl | hw
          · exact .inl (List.mem_reverse.1 hc)
          · exact .inr (List.mem_cons_of_mem a ((ih hw).resolve_left (List.not_mem_nil)))
      · rcases ih hw with hacc | hcs
        · rcases List.mem_cons.1 hacc with rfl | hacc
          · exact .inr List.mem_cons_self
          · exact .inl hacc
        · exact .inr (List.mem_cons_of_mem a hcs)

theorem mem_of_mem_words (hw : w ∈ words cs) (hc : c ∈ w) : c ∈ cs :=
  (mem_of_mem_wordsFrom hw hc).resolve_left List.not_mem_nil

/-- The last word of a text ends in what the text ends in. -/
theorem exists_words_append (hw : IsWord w) (cs : List Char) :
    ∃ ws u, words (cs ++ w) = ws ++ [u ++ w] := by
  induction cs using List.reverseRecOn generalizing w with
  | nil => exact ⟨[], [], words_word hw⟩
  | append_singleton cs c ih =>
      rw [List.append_assoc, List.singleton_append]
      by_cases hc : isBlank c = true
      · exact ⟨words cs, [], by rw [words_append_blank hc, words_word hw]; rfl⟩
      · have hcw : IsWord (c :: w) :=
          ⟨List.cons_ne_nil c w, List.forall_mem_cons.2 ⟨eq_false_of_ne_true hc, hw.2⟩⟩
        obtain ⟨ws, u, h⟩ := ih hcw
        exact ⟨ws, u ++ [c], by rw [h, List.append_assoc, List.singleton_append]⟩

theorem words_trimStart (cs : List Char) : words (trimStart cs) = words cs := by
  induction cs with
  | nil => rfl
  | cons c cs ih =>
      by_cases hc : isBlank c = true
      · rw [trimStart_append_blank hc, words_blank hc, ih]
      · rw [trimStart_cons (eq_false_of_ne_true hc)]

private theorem wordsFrom_concat_blank (h : isBlank c = true) (acc cs : List Char) :
    wordsFrom acc (cs ++ [c]) = wordsFrom acc cs := by
  induction cs generalizing acc with
  | nil => simp [wordsFrom, h]
  | cons b cs ih => simp only [List.cons_append, wordsFrom, ih]

theorem words_trimEnd (cs : List Char) : words (trimEnd cs) = words cs := by
  induction cs using List.reverseRecOn with
  | nil => rfl
  | append_singleton cs c ih =>
      by_cases hc : isBlank c = true
      · rw [trimEnd_append_blank hc, ih, words, words, wordsFrom_concat_blank hc]
      · rw [trimEnd_concat (eq_false_of_ne_true hc)]

/-- Trimming keeps the words. -/
theorem words_trimChars (cs : List Char) : words (trimChars cs) = words cs := by
  rw [trimChars, words_trimEnd, words_trimStart]

/-! ## Words set apart by spaces -/

/-- Words with one space between each two. -/
def spaced : List (List Char) → List Char
  | [] => []
  | [w] => w
  | w :: v :: ws => w ++ ' ' :: spaced (v :: ws)

theorem toList_joinWith_space (ws : List (List Char)) :
    (joinWith " " (ws.map String.ofList)).toList = spaced ws := by
  induction ws with
  | nil => rfl
  | cons w ws ih =>
      cases ws with
      | nil => exact String.toList_ofList
      | cons v ws =>
          rw [List.map_cons] at ih ⊢
          rw [List.map_cons, joinWith, String.toList_append, String.toList_append, ih,
            String.toList_ofList, List.append_assoc]
          rfl

/-- Words set apart by spaces are read back. -/
theorem words_spaced {ws : List (List Char)} (h : ∀ w ∈ ws, IsWord w) :
    words (spaced ws) = ws := by
  induction ws with
  | nil => rfl
  | cons w ws ih =>
      obtain ⟨hw, hws⟩ := List.forall_mem_cons.1 h
      cases ws with
      | nil => exact words_word hw
      | cons v ws => rw [spaced, words_word_blank hw (by decide), ih hws]

theorem spaced_append {vs ws : List (List Char)} (hv : vs ≠ []) (hw : ws ≠ []) :
    spaced (vs ++ ws) = spaced vs ++ ' ' :: spaced ws := by
  obtain ⟨w, ws, rfl⟩ := List.exists_cons_of_ne_nil hw
  induction vs with
  | nil => exact absurd rfl hv
  | cons v vs ih =>
      cases vs with
      | nil => rfl
      | cons u vs =>
          rw [List.cons_append, List.cons_append, spaced, ← List.cons_append,
            ih (List.cons_ne_nil u vs), spaced, List.append_assoc, List.cons_append]

/-- Without a space between them, the last word of one text and the first of the next are one. -/
theorem spaced_append_spaced (us vs : List (List Char)) (u v : List Char) :
    spaced (us ++ [u]) ++ spaced (v :: vs) = spaced (us ++ (u ++ v) :: vs) := by
  have hfront : u ++ spaced (v :: vs) = spaced ((u ++ v) :: vs) := by
    cases vs with
    | nil => rfl
    | cons w vs => exact (List.append_assoc u v _).symm
  cases us with
  | nil => exact hfront
  | cons t us =>
      rw [spaced_append (List.cons_ne_nil t us) (List.cons_ne_nil u []),
        spaced_append (List.cons_ne_nil t us) (List.cons_ne_nil (u ++ v) vs), ← hfront,
        List.append_assoc]
      rfl

/-- Words one space apart end in the last ones of them. -/
theorem spaced_suffix (vs ws : List (List Char)) : spaced ws <:+ spaced (vs ++ ws) := by
  rcases List.eq_nil_or_concat vs with rfl | ⟨us, v, rfl⟩
  · exact List.suffix_refl _
  · rcases List.eq_nil_or_concat ws with rfl | ⟨ws', w, rfl⟩
    · exact List.nil_suffix
    · rw [spaced_append (by simp) (by simp)]
      exact ⟨spaced (us.concat v) ++ [' '], by simp⟩

theorem getLast?_of_suffix (h : w <:+ cs) (hw : w ≠ []) : cs.getLast? = w.getLast? := by
  obtain ⟨ds, rfl⟩ := h
  rw [List.getLast?_append, List.getLast?_eq_some_getLast hw]
  rfl

/-- The words of what ends in words one space apart. -/
theorem words_append_spaced {ws : List (List Char)} (hw : ∀ v ∈ ws, IsWord v)
    (cs w : List Char) : words (cs ++ spaced (w :: ws)) = words (cs ++ w) ++ ws := by
  cases ws with
  | nil => exact (List.append_nil _).symm
  | cons v ws =>
      rw [spaced, ← List.append_assoc, words_append_blank (by decide), words_spaced hw]

theorem mem_spaced {ws : List (List Char)} (hc : c ∈ spaced ws) :
    c = ' ' ∨ ∃ w ∈ ws, c ∈ w := by
  induction ws with
  | nil => exact nomatch hc
  | cons w ws ih =>
      cases ws with
      | nil => exact .inr ⟨w, List.mem_cons_self, hc⟩
      | cons v ws =>
          rw [spaced] at hc
          rcases List.mem_append.1 hc with hc | hc
          · exact .inr ⟨w, List.mem_cons_self, hc⟩
          · rcases List.mem_cons.1 hc with rfl | hc
            · exact .inl rfl
            · exact (ih hc).imp_right fun ⟨u, hu, hc⟩ => ⟨u, List.mem_cons_of_mem w hu, hc⟩

/-- Words one space apart begin and end with a visible character and are squeezed. -/
theorem isTrimmed_spaced {ws : List (List Char)} (hw : ∀ w ∈ ws, IsWord w) :
    IsTrimmed (spaced ws) := by
  induction ws with
  | nil => exact ⟨by simp [spaced], by simp [spaced]⟩
  | cons w ws ih =>
      obtain ⟨hfirst, hrest⟩ := List.forall_mem_cons.1 hw
      cases ws with
      | nil =>
          have hhead := hfirst.head []
          rw [List.append_nil] at hhead
          exact ⟨hhead, hfirst.last⟩
      | cons v ws =>
          refine ⟨hfirst.head _, ?_⟩
          intro c hc
          rw [spaced, List.getLast?_append, List.getLast?_cons] at hc
          cases hlast : (spaced (v :: ws)).getLast? with
          | none =>
              have hne : spaced (v :: ws) ≠ [] := by
                have hv := (hrest v List.mem_cons_self).1
                cases ws <;> simp [spaced, hv]
              exact absurd (List.getLast?_eq_none_iff.1 hlast) hne
          | some d =>
              rw [hlast] at hc
              obtain rfl : d = c := Option.some.inj hc
              exact (ih hrest).2 d hlast

end DeclAtlas.Text
