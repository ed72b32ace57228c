import DeclAtlas.Proofs.Text.Words
import DeclAtlas.Shape.Parser
import Mathlib.Data.List.Basic
import Mathlib.Data.List.TakeWhile

/-!
# Cleaning a spelling

Cleaning takes the elaborated keywords out of a spelling and puts its words one space apart.
`Drops` is the first of these as a relation, with one rule for a character that stays and one
for a keyword that goes. What is left holds no keyword that could still be dropped: a keyword
is a run of word characters with none before it, and neither leaving out another keyword nor
changing blanks can bring such a run about.

A mark is a character that belongs to no keyword and is no blank. Cleaning goes on after a
mark as if the text began there, so a spelling keeps the marks at its end.

## Main results

* `unelaborated_clean`: no keyword is left to be dropped.
* `clean_of_isClean`, `isClean_clean`: cleaning changes exactly what is not clean.
* `words_clean`: only keywords are lost.
* `clean_append_mark`: cleaning keeps a mark at the end.
-/

namespace DeclAtlas.Shape

open Text

variable {b b' : Option Char} {c : Char} {cs ds kw blanks rest w : List Char}

/-! ## Elaborated keywords -/

theorem isWordChar_of_mem_keyword (hk : kw ∈ elaboratedKeywords) :
    ∀ c ∈ kw, isWordChar c = true := by
  have hall : ∀ kw ∈ elaboratedKeywords, kw.all isWordChar = true := by decide
  exact List.all_eq_true.1 (hall kw hk)

theorem not_isBlank_of_isWordChar (h : isWordChar c = true) : isBlank c = false := by
  cases hb : isBlank c with
  | false => rfl
  | true => exact absurd (h.symm.trans (isWordChar_of_isBlank hb)) (by decide)

theorem isWord_of_mem_keyword (hk : kw ∈ elaboratedKeywords) : IsWord kw := by
  refine ⟨?_, fun c hc => not_isBlank_of_isWordChar (isWordChar_of_mem_keyword hk c hc)⟩
  rintro rfl
  exact absurd hk (by decide)

/-- No word character stands directly before. -/
def AtBoundary (b : Option Char) : Prop := b.any isWordChar = false

theorem AtBoundary.none : AtBoundary none := rfl

theorem AtBoundary.of_blank (h : isBlank c = true) : AtBoundary (some c) :=
  isWordChar_of_isBlank h

/-- A text that follows `b` begins with an elaborated keyword and a blank. -/
def Elaborates (b : Option Char) (cs : List Char) : Prop :=
  AtBoundary b ∧ ∃ kw ∈ elaboratedKeywords, ∃ c rest, isBlank c = true ∧ cs = kw ++ c :: rest

theorem Elaborates.congr (hb : AtBoundary b ↔ AtBoundary b') :
    Elaborates b cs ↔ Elaborates b' cs := by
  rw [Elaborates, Elaborates, hb]

theorem Elaborates.append (h : Elaborates b cs) (ds : List Char) : Elaborates b (cs ++ ds) := by
  obtain ⟨hb, kw, hk, c, rest, hc, rfl⟩ := h
  exact ⟨hb, kw, hk, c, rest ++ ds, hc, by simp⟩

/-- The keyword and the blanks that a length counts. -/
theorem exists_of_elaboratedLength {k : Nat} (h : elaboratedLength? b cs = some k) :
    AtBoundary b ∧ ∃ kw ∈ elaboratedKeywords, ∃ blanks rest, cs = kw ++ (blanks ++ rest) ∧
      blanks ≠ [] ∧ (∀ c ∈ blanks, isBlank c = true) ∧
      (∀ c ∈ rest.head?, isBlank c = false) ∧ k = kw.length + blanks.length := by
  unfold elaboratedLength? at h
  split at h
  · exact nomatch h
  · rename_i hb
    obtain ⟨kw, hk, hf⟩ := List.exists_of_findSome?_eq_some h
    refine ⟨eq_false_of_ne_true hb, kw, hk, ?_⟩
    cases hp : kw.isPrefixOf? cs with
    | none => rw [hp] at hf; exact nomatch hf
    | some tail =>
        rw [hp] at hf
        dsimp only at hf
        split at hf
        · exact nomatch hf
        · rename_i hz
          refine ⟨tail.takeWhile isBlank, tail.dropWhile isBlank, ?_, ?_, ?_, ?_, ?_⟩
          · rw [List.takeWhile_append_dropWhile, List.append_eq_of_isPrefixOf?_eq_some hp]
          · simpa using hz
          · exact fun c hc => List.mem_takeWhile_imp hc
          · exact head_trimStart tail
          · exact (Option.some.inj hf).symm

/-- A keyword and its blanks have one length. -/
theorem elaboratedLength_keyword (hb : AtBoundary b) (hk : kw ∈ elaboratedKeywords)
    (hne : blanks ≠ []) (hbl : ∀ c ∈ blanks, isBlank c = true)
    (hr : ∀ c ∈ rest.head?, isBlank c = false) :
    elaboratedLength? b (kw ++ (blanks ++ rest)) = some (kw.length + blanks.length) := by
  have htake : (blanks ++ rest).takeWhile isBlank = blanks := by
    rw [List.takeWhile_append_of_pos hbl]
    cases rest with
    | nil => simp
    | cons c rest => simp [hr c rfl]
  rw [elaboratedLength?, if_neg (by rw [hb]; decide)]
  simp only [elaboratedKeywords, List.mem_cons, List.not_mem_nil, or_false] at hk
  rcases hk with rfl | rfl | rfl | rfl <;>
    simp [elaboratedKeywords, List.findSome?, List.isPrefixOf?, htake, hne,
      -List.takeWhile_eq_nil_iff]

theorem elaboratedLength_eq_none_iff :
    elaboratedLength? b cs = none ↔ ¬Elaborates b cs := by
  constructor
  · rintro h ⟨hb, kw, hk, c, rest, hc, rfl⟩
    have hsplit : c :: rest = (c :: rest.takeWhile isBlank) ++ rest.dropWhile isBlank := by
      rw [List.cons_append, List.takeWhile_append_dropWhile]
    have hbl : ∀ d ∈ c :: rest.takeWhile isBlank, isBlank d = true :=
      List.forall_mem_cons.2 ⟨hc, fun d hd => List.mem_takeWhile_imp hd⟩
    have hr : ∀ d ∈ (rest.dropWhile isBlank).head?, isBlank d = false := head_trimStart rest
    rw [hsplit, elaboratedLength_keyword hb hk (by simp) hbl hr] at h
    exact nomatch h
  · intro h
    cases hl : elaboratedLength? b cs with
    | none => rfl
    | some k =>
        obtain ⟨hb, kw, hk, blanks, rest, rfl, hne, hbl, -, -⟩ := exists_of_elaboratedLength hl
        obtain ⟨c, blanks, rfl⟩ := List.exists_cons_of_ne_nil hne
        exact absurd ⟨hb, kw, hk, c, blanks ++ rest, hbl c (by simp), rfl⟩ h

/-! ## Dropping keywords -/

/-- Dropping the elaborated keywords of a text that follows `b` leaves another text. -/
inductive Drops : Option Char → List Char → List Char → Prop where
  | nil (b : Option Char) : Drops b [] []
  | keep {b : Option Char} {c : Char} {cs ds : List Char} (hn : ¬Elaborates b (c :: cs))
      (h : Drops (some c) cs ds) : Drops b (c :: cs) (c :: ds)
  | drop {b : Option Char} {kw blanks rest ds : List Char} (hb : AtBoundary b)
      (hk : kw ∈ elaboratedKeywords) (hne : blanks ≠ [])
      (hbl : ∀ c ∈ blanks, isBlank c = true) (hr : ∀ c ∈ rest.head?, isBlank c = false)
      (h : Drops none rest ds) : Drops b (kw ++ (blanks ++ rest)) ds

private theorem dropElaborated_keep (hn : ¬Elaborates b (c :: cs)) :
    dropElaborated b 0 (c :: cs) = c :: dropElaborated (some c) 0 cs := by
  rw [dropElaborated, elaboratedLength_eq_none_iff.2 hn]

private theorem dropElaborated_skip (b : Option Char) (w cs : List Char) (hw : w ≠ []) :
    dropElaborated b w.length (w ++ cs) = dropElaborated w.getLast? 0 cs := by
  induction w generalizing b with
  | nil => exact absurd rfl hw
  | cons c w ih =>
      rw [List.length_cons, List.cons_append, dropElaborated]
      cases w with
      | nil => rfl
      | cons d w => rw [ih (some c) (by simp), List.getLast?_cons_cons]

/-- It only matters whether a word character stands before. -/
private theorem dropElaborated_congr (hb : AtBoundary b ↔ AtBoundary b') (cs : List Char) :
    dropElaborated b 0 cs = dropElaborated b' 0 cs := by
  have hb' : b.any isWordChar = b'.any isWordChar := by
    unfold AtBoundary at hb
    cases h : b'.any isWordChar with
    | false => exact hb.2 h
    | true => simpa [h] using hb
  cases cs with
  | nil => rfl
  | cons c cs => simp only [dropElaborated, elaboratedLength?, hb']

private theorem dropElaborated_drop (hb : AtBoundary b) (hk : kw ∈ elaboratedKeywords)
    (hne : blanks ≠ []) (hbl : ∀ c ∈ blanks, isBlank c = true)
    (hr : ∀ c ∈ rest.head?, isBlank c = false) :
    dropElaborated b 0 (kw ++ (blanks ++ rest)) = dropElaborated none 0 rest := by
  have hlen := elaboratedLength_keyword hb hk hne hbl hr
  obtain ⟨c, kw, rfl⟩ := List.exists_cons_of_ne_nil (isWord_of_mem_keyword hk).1
  rw [List.cons_append] at hlen ⊢
  rw [dropElaborated, hlen]
  dsimp only
  have hskip := dropElaborated_skip (some c) (kw ++ blanks) rest (by simp [hne])
  rw [List.append_assoc] at hskip
  rw [show (c :: kw).length + blanks.length - 1 = (kw ++ blanks).length by simp]
  rw [hskip]
  refine dropElaborated_congr ?_ rest
  rw [List.getLast?_append, List.getLast?_eq_some_getLast hne]
  exact iff_of_true (.of_blank (hbl _ (List.getLast_mem hne))) .none

/-- Dropping keywords is what the relation says. -/
theorem drops_iff : Drops b cs ds ↔ ds = dropElaborated b 0 cs := by
  constructor
  · intro h
    induction h with
    | nil b => rfl
    | keep hn _ ih => rw [dropElaborated_keep hn, ih]
    | drop hb hk hne hbl hr _ ih => rw [dropElaborated_drop hb hk hne hbl hr, ih]
  · rintro rfl
    induction hlen : cs.length using Nat.strongRecOn generalizing b cs with
    | ind n ih =>
        cases cs with
        | nil => exact .nil b
        | cons c cs =>
            by_cases he : Elaborates b (c :: cs)
            · cases hl : elaboratedLength? b (c :: cs) with
              | none => exact absurd he (elaboratedLength_eq_none_iff.1 hl)
              | some k =>
                  obtain ⟨hb, kw, hk, blanks, rest, heq, hne, hbl, hr, -⟩ :=
                    exists_of_elaboratedLength hl
                  rw [heq, dropElaborated_drop hb hk hne hbl hr]
                  refine .drop hb hk hne hbl hr (ih _ ?_ rfl)
                  have hpos := List.length_pos_iff.2 hne
                  rw [heq] at hlen
                  simp only [List.length_append] at hlen
                  omega
            · rw [dropElaborated_keep he]
              refine .keep he (ih _ ?_ rfl)
              rw [← hlen, List.length_cons]
              exact Nat.lt_succ_self _

theorem drops_dropElaborated (b : Option Char) (cs : List Char) :
    Drops b cs (dropElaborated b 0 cs) :=
  drops_iff.2 rfl

/-- A character that belongs to no keyword and is no blank. -/
def IsMark (c : Char) : Prop := isWordChar c = false ∧ isBlank c = false

theorem not_elaborates_of_not_word (h : isWordChar c = false) (cs : List Char) :
    ¬Elaborates b (c :: cs) := by
  rintro ⟨-, kw, hk, x, rest, -, heq⟩
  obtain ⟨a, kw', rfl⟩ := List.exists_cons_of_ne_nil (isWord_of_mem_keyword hk).1
  have ha := isWordChar_of_mem_keyword hk a List.mem_cons_self
  rw [← (List.cons.inj heq).1, h] at ha
  exact Bool.false_ne_true ha

/-- A keyword to drop ends before the next mark. -/
theorem not_elaborates_append_mark (hc : IsMark c) (hn : ¬Elaborates b cs) :
    ¬Elaborates b (cs ++ c :: ds) := by
  rintro ⟨hb, kw, hk, x, rest, hx, heq⟩
  rw [← List.singleton_append (l := rest), ← List.append_assoc] at heq
  rcases List.append_eq_append_iff.1 heq with ⟨u, hu, hv⟩ | ⟨u, hu, -⟩
  · cases u with
    | nil =>
        rw [List.append_nil] at hu
        exact hn ⟨hb, kw, hk, x, [], hx, hu.symm⟩
    | cons a u =>
        have hmem : c ∈ kw ++ [x] := by
          rw [hu, (List.cons.inj hv).1]
          simp
        rcases List.mem_append.1 hmem with hmem | hmem
        · exact absurd ((isWordChar_of_mem_keyword hk c hmem).symm.trans hc.1) (by decide)
        · rw [List.mem_singleton.1 hmem] at hc
          exact absurd (hx.symm.trans hc.2) (by decide)
  · exact hn ⟨hb, kw, hk, x, u, hx, by rw [hu, List.append_assoc, List.singleton_append]⟩

theorem Drops.congr (hb : AtBoundary b ↔ AtBoundary b') (h : Drops b cs ds) :
    Drops b' cs ds := by
  rw [drops_iff] at h ⊢
  rw [h, dropElaborated_congr hb]

theorem Drops.mem (h : Drops b cs ds) (hc : c ∈ ds) : c ∈ cs := by
  induction h with
  | nil => exact hc
  | keep _ _ ih =>
      rcases List.mem_cons.1 hc with rfl | hc
      · exact List.mem_cons_self
      · exact List.mem_cons_of_mem _ (ih hc)
  | drop _ _ _ _ _ _ ih => simp [ih hc]

theorem Drops.append_mark (hc : IsMark c) {es : List Char} (h : Drops b cs ds)
    (h' : Drops none rest es) : Drops b (cs ++ c :: rest) (ds ++ c :: es) := by
  induction h with
  | nil b =>
      refine .keep (not_elaborates_of_not_word hc.1 rest) (h'.congr ?_)
      exact iff_of_true .none hc.1
  | keep hn _ ih => exact .keep (not_elaborates_append_mark hc hn) ih
  | @drop b kw blanks tail ds hb hk hne hbl hr _ ih =>
      rw [List.append_assoc, List.append_assoc]
      refine .drop hb hk hne hbl ?_ ih
      cases tail with
      | nil => simpa using hc.2
      | cons a tail => simpa using hr

/-- Keywords are dropped before and after a mark. -/
theorem dropElaborated_append_mark (hc : IsMark c) (cs ds : List Char) :
    dropElaborated b 0 (cs ++ c :: ds) =
      dropElaborated b 0 cs ++ c :: dropElaborated none 0 ds :=
  (drops_iff.1 ((drops_dropElaborated b cs).append_mark hc (drops_dropElaborated none ds))).symm

/-! ## Texts without keywords to drop -/

/-- No place of a text that follows `b` begins with a keyword to drop. -/
def Unelaborated : Option Char → List Char → Prop
  | _, [] => True
  | b, c :: cs => ¬Elaborates b (c :: cs) ∧ Unelaborated (some c) cs

theorem Unelaborated.dropElaborated_eq (h : Unelaborated b cs) : dropElaborated b 0 cs = cs := by
  induction cs generalizing b with
  | nil => rfl
  | cons c cs ih => rw [dropElaborated_keep h.1, ih h.2]

theorem Unelaborated.congr (hb : AtBoundary b ↔ AtBoundary b') (h : Unelaborated b cs) :
    Unelaborated b' cs := by
  cases cs with
  | nil => trivial
  | cons c cs => exact ⟨fun he => h.1 ((Elaborates.congr hb).2 he), h.2⟩

/-- Where no word begins, it does not matter what stands before. -/
theorem Unelaborated.of_head (hc : ∀ c ∈ cs.head?, isWordChar c = false)
    (h : Unelaborated b cs) : Unelaborated b' cs := by
  cases cs with
  | nil => trivial
  | cons c cs => exact ⟨not_elaborates_of_not_word (hc c rfl) cs, h.2⟩

theorem Unelaborated.of_append (h : Unelaborated b (cs ++ ds)) : Unelaborated b cs := by
  induction cs generalizing b with
  | nil => trivial
  | cons c cs ih => exact ⟨fun he => h.1 (he.append ds), ih h.2⟩

theorem Unelaborated.of_isPrefix (h : Unelaborated b ds) (hp : cs <+: ds) :
    Unelaborated b cs := by
  obtain ⟨t, rfl⟩ := hp
  exact h.of_append

/-- What follows a mark does not matter to what stands before it. -/
theorem Unelaborated.append_mark (hc : IsMark c) (h : Unelaborated b cs)
    (h' : Unelaborated none ds) : Unelaborated b (cs ++ c :: ds) := by
  induction cs generalizing b with
  | nil =>
      exact ⟨not_elaborates_of_not_word hc.1 ds, h'.congr (iff_of_true .none hc.1)⟩
  | cons a cs ih => exact ⟨not_elaborates_append_mark hc h.1, ih h.2⟩

theorem Unelaborated.after (h : Unelaborated b (cs ++ c :: ds)) : Unelaborated (some c) ds := by
  induction cs generalizing b with
  | nil => exact h.2
  | cons a cs ih => exact ih h.2

/-- A word character keeps the next characters from being dropped, so a run of them in what
is left was there before, with the character after it. -/
private theorem Drops.run {x : Char} {r : List Char} (hc : isWordChar c = true)
    (hw : ∀ a ∈ w, isWordChar a = true) (h : Drops (some c) cs (w ++ x :: r)) :
    ∃ r', cs = w ++ x :: r' := by
  induction w generalizing c cs with
  | nil =>
      cases h with
      | keep => exact ⟨_, rfl⟩
      | drop hb => exact absurd (hc.symm.trans hb) (by decide)
  | cons a w ih =>
      obtain ⟨ha, hw⟩ := List.forall_mem_cons.1 hw
      cases h with
      | keep _ h =>
          obtain ⟨r', hr⟩ := ih ha hw h
          exact ⟨r', by rw [hr, List.cons_append]⟩
      | drop hb => exact absurd (hc.symm.trans hb) (by decide)

theorem Drops.unelaborated (h : Drops b cs ds) : Unelaborated b ds := by
  induction h with
  | nil b => trivial
  | @keep b c cs ds hn h ih =>
      refine ⟨?_, ih⟩
      rintro ⟨hb, kw, hk, x, r, hx, heq⟩
      obtain ⟨a, kw, rfl⟩ := List.exists_cons_of_ne_nil (isWord_of_mem_keyword hk).1
      obtain ⟨rfl, hds⟩ := List.cons.inj heq
      obtain ⟨ha, hw⟩ := List.forall_mem_cons.1 (isWordChar_of_mem_keyword hk)
      rw [hds] at h
      obtain ⟨r', rfl⟩ := h.run ha hw
      exact hn ⟨hb, c :: kw, hk, x, r', hx, rfl⟩
  | drop hb _ _ _ _ _ ih => exact ih.congr (iff_of_true .none hb)

theorem Unelaborated.trimStart (hb : AtBoundary b) (h : Unelaborated b cs) :
    Unelaborated b (trimStart cs) := by
  induction cs generalizing b with
  | nil => trivial
  | cons c cs ih =>
      by_cases hc : isBlank c = true
      · rw [trimStart_append_blank hc]
        exact (ih (.of_blank hc) h.2).congr (iff_of_true (.of_blank hc) hb)
      · rwa [trimStart_cons (eq_false_of_ne_true hc)]

/-! ## Runs of blanks -/

/-- A run of visible characters and a blank after it were there before. -/
private theorem squeeze_run {x : Char} {r : List Char} (hw : ∀ a ∈ w, isBlank a = false)
    (hx : isBlank x = true) (h : squeeze false cs = w ++ x :: r) :
    ∃ y r', isBlank y = true ∧ cs = w ++ y :: r' := by
  induction w generalizing cs with
  | nil =>
      cases cs with
      | nil => exact nomatch h
      | cons c cs =>
          by_cases hc : isBlank c = true
          · exact ⟨c, cs, hc, rfl⟩
          · rw [squeeze, if_neg hc] at h
            rw [← (List.cons.inj h).1] at hx
            exact absurd hx hc
  | cons a w ih =>
      obtain ⟨ha, htail⟩ := List.forall_mem_cons.1 hw
      cases cs with
      | nil => exact nomatch h
      | cons c cs =>
          rw [List.cons_append] at h
          by_cases hc : isBlank c = true
          · rw [squeeze, if_pos hc, if_neg Bool.false_ne_true] at h
            rw [← (List.cons.inj h).1] at ha
            exact absurd ha (by decide)
          · rw [squeeze, if_neg hc] at h
            obtain ⟨rfl, hcs⟩ := List.cons.inj h
            obtain ⟨y, r', hy, rfl⟩ := ih htail hcs
            exact ⟨y, r', hy, rfl⟩

theorem Unelaborated.squeeze {inBlanks : Bool} (hb : AtBoundary b ↔ AtBoundary b')
    (hin : inBlanks = true → AtBoundary b) (h : Unelaborated b cs) :
    Unelaborated b' (squeeze inBlanks cs) := by
  induction cs generalizing b b' inBlanks with
  | nil => trivial
  | cons c cs ih =>
      rw [Shape.squeeze]
      split
      · rename_i hc
        have hbc : AtBoundary (some c) := .of_blank hc
        split
        · rename_i hin'
          exact ih (iff_of_true hbc (hb.1 (hin hin'))) (fun _ => hbc) h.2
        · refine ⟨not_elaborates_of_not_word (by decide) _, ?_⟩
          exact ih (iff_of_true hbc (.of_blank (by decide))) (fun _ => hbc) h.2
      · refine ⟨?_, ih Iff.rfl (fun hf => absurd hf Bool.false_ne_true) h.2⟩
        rintro ⟨hb', kw, hk, x, r, hx, heq⟩
        obtain ⟨a, kw, rfl⟩ := List.exists_cons_of_ne_nil (isWord_of_mem_keyword hk).1
        obtain ⟨rfl, hcs⟩ := List.cons.inj heq
        obtain ⟨-, hw⟩ := List.forall_mem_cons.1 (isWord_of_mem_keyword hk).2
        obtain ⟨y, r', hy, rfl⟩ := squeeze_run hw hx hcs
        exact h.1 ⟨hb.2 hb', c :: kw, hk, y, r', hy, rfl⟩

/-- A visible character is kept, and blanks after it are a new run. -/
theorem squeeze_append_cons (hc : isBlank c = false) (inBlanks : Bool) (cs ds : List Char) :
    squeeze inBlanks (cs ++ c :: ds) = squeeze inBlanks cs ++ c :: squeeze false ds := by
  induction cs generalizing inBlanks with
  | nil => simp [squeeze, hc]
  | cons a cs ih =>
      simp only [List.cons_append, squeeze, ih]
      split
      · split <;> rfl
      · rfl

theorem mem_squeeze {inBlanks : Bool} (hc : c ∈ squeeze inBlanks cs) : c ∈ cs ∨ c = ' ' := by
  induction cs generalizing inBlanks with
  | nil => exact nomatch hc
  | cons a cs ih =>
      have hcons : c ∈ cs ∨ c = ' ' → c ∈ a :: cs ∨ c = ' ' :=
        Or.imp_left (List.mem_cons_of_mem a)
      rw [squeeze] at hc
      split at hc
      · split at hc
        · exact hcons (ih hc)
        · rcases List.mem_cons.1 hc with rfl | hc
          · exact .inr rfl
          · exact hcons (ih hc)
      · rcases List.mem_cons.1 hc with rfl | hc
        · exact .inl List.mem_cons_self
        · exact hcons (ih hc)

theorem squeeze_squeeze (inBlanks : Bool) (cs : List Char) :
    squeeze inBlanks (squeeze inBlanks cs) = squeeze inBlanks cs := by
  induction cs generalizing inBlanks with
  | nil => rfl
  | cons c cs ih =>
      have hspace : isBlank ' ' = true := by decide
      rw [squeeze]
      split
      · split
        · rename_i hin
          subst hin
          exact ih true
        · rename_i hin
          rw [squeeze, if_pos hspace, if_neg hin, ih]
      · rename_i hc
        rw [squeeze, if_neg hc, ih]

private theorem wordsFrom_squeeze {inBlanks : Bool} {acc : List Char}
    (h : inBlanks = true → acc = []) (cs : List Char) :
    wordsFrom acc (squeeze inBlanks cs) = wordsFrom acc cs := by
  induction cs generalizing inBlanks acc with
  | nil => rfl
  | cons c cs ih =>
      have hspace : isBlank ' ' = true := by decide
      by_cases hc : isBlank c = true
      · rw [squeeze, if_pos hc, wordsFrom, if_pos hc]
        cases inBlanks with
        | true =>
            obtain rfl := h rfl
            exact ih fun _ => rfl
        | false =>
            have hrest : wordsFrom [] (squeeze true cs) = wordsFrom [] cs := ih fun _ => rfl
            rw [if_neg Bool.false_ne_true, wordsFrom, if_pos hspace, hrest]
      · rw [squeeze, if_neg hc, wordsFrom, if_neg hc, wordsFrom, if_neg hc]
        exact ih fun hf => absurd hf Bool.false_ne_true

theorem IsTrimmed.squeeze (h : IsTrimmed cs) : IsTrimmed (squeeze false cs) := by
  constructor
  · cases cs with
    | nil => simp [Shape.squeeze]
    | cons c cs =>
        have hc : isBlank c = false := h.1 c rfl
        simp [Shape.squeeze, hc]
  · rcases List.eq_nil_or_concat cs with rfl | ⟨cs, c, rfl⟩
    · simp [Shape.squeeze]
    · have hc : isBlank c = false := h.2 c (by simp)
      rw [List.concat_eq_append, squeeze_append_cons hc]
      simpa [Shape.squeeze] using hc

/-! ## Clean texts -/

/-- A text that cleaning leaves alone. -/
structure IsClean (cs : List Char) : Prop where
  unelaborated : Unelaborated none cs
  trimmed : IsTrimmed cs
  squeezed : squeeze false cs = cs

theorem clean_of_isClean (h : IsClean cs) : clean cs = cs := by
  rw [clean, h.unelaborated.dropElaborated_eq, h.trimmed.trimChars_eq, h.squeezed]

/-- No keyword is left to be dropped. -/
theorem unelaborated_clean (cs : List Char) : Unelaborated none (clean cs) := by
  have hdrop : Unelaborated none (dropElaborated none 0 cs) :=
    (drops_dropElaborated none cs).unelaborated
  have htrim := (hdrop.trimStart .none).of_isPrefix (trimEnd_isPrefix _)
  exact htrim.squeeze Iff.rfl fun _ => .none

theorem isClean_clean (cs : List Char) : IsClean (clean cs) :=
  ⟨unelaborated_clean cs, IsTrimmed.squeeze (isTrimmed_trimChars _), squeeze_squeeze false _⟩

theorem clean_clean (cs : List Char) : clean (clean cs) = clean cs :=
  clean_of_isClean (isClean_clean cs)

/-- Only keywords are lost. -/
theorem words_clean (cs : List Char) :
    words (clean cs) = words (dropElaborated none 0 cs) := by
  rw [clean, words, wordsFrom_squeeze (fun h => absurd h Bool.false_ne_true), ← words,
    words_trimChars]

theorem trimEnd_append_cons (hc : isBlank c = false) (cs ds : List Char) :
    trimEnd (cs ++ c :: ds) = cs ++ c :: trimEnd ds := by
  rw [trimEnd_eq_reverse, List.reverse_append, List.reverse_cons, List.append_assoc,
    List.singleton_append, trimStart_append_cons hc, List.reverse_append, List.reverse_cons,
    List.reverse_reverse, List.append_assoc, List.singleton_append, ← trimEnd_eq_reverse]

/-- Cleaning keeps a mark, and goes on after it as at the beginning of a text. -/
theorem clean_append_mark (hc : IsMark c) (cs ds : List Char) :
    clean (cs ++ c :: ds) =
      squeeze false (trimStart (dropElaborated none 0 cs)) ++
        c :: squeeze false (trimEnd (dropElaborated none 0 ds)) := by
  rw [clean, dropElaborated_append_mark hc, trimChars, trimStart_append_cons hc.2,
    trimEnd_append_cons hc.2, squeeze_append_cons hc.2]

end DeclAtlas.Shape
