import DeclAtlas.Proofs.Shape.Cleaning

/-!
# Names at the core

The name at the core of a spelling is made of the words that are left of a text when layers
and qualifiers are gone. Taking words out of a text that holds no elaborated keyword to drop
does not bring one about: such a keyword ends a word with another one after it, and a word
keeps its end.

## Main results

* `unelaborated_spaced_filter`: words that are left out leave no keyword to be dropped.
* `isCore_of_readNamed`: a name that is read is a core.
* `IsCore.readNamed_clean`: a core is read from its own spelling.
-/

namespace DeclAtlas.Shape

open Text

variable {b : Option Char} {c : Char} {cs ds es w : List Char} {ws : List (List Char)}
  {name : String} {isConst : Bool}

/-! ## Texts with a blank after them -/

/-- A keyword with a blank after it ends before what is no word character. -/
private theorem not_elaborates_append (hc : isBlank c = true)
    (hn : ¬Elaborates b (cs ++ [c])) (hd : ∀ c ∈ ds.head?, isWordChar c = false) :
    ¬Elaborates b (cs ++ ds) := by
  rintro ⟨hb, kw, hk, x, rest, hx, heq⟩
  rcases List.append_eq_append_iff.1 heq with ⟨u, hu, hv⟩ | ⟨u, hu, hv⟩
  · cases u with
    | nil =>
        rw [List.append_nil] at hu
        exact hn ⟨hb, kw, hk, c, [], hc, by rw [hu]⟩
    | cons a u =>
        have ha : a ∈ kw := by simp [hu]
        have hword := isWordChar_of_mem_keyword hk a ha
        rw [hd a (by simp [hv])] at hword
        exact Bool.false_ne_true hword
  · cases u with
    | nil =>
        rw [List.append_nil] at hu
        exact hn ⟨hb, kw, hk, c, [], hc, by rw [hu]⟩
    | cons a u =>
        obtain ⟨rfl, -⟩ := List.cons.inj hv
        exact hn ⟨hb, kw, hk, x, u ++ [c], hx, by simp [hu]⟩

/-- What is no word character can follow where a blank could. -/
private theorem unelaborated_append (hc : isBlank c = true) (h : Unelaborated b (cs ++ [c]))
    (hu : Unelaborated none ds) (hd : ∀ c ∈ ds.head?, isWordChar c = false) :
    Unelaborated b (cs ++ ds) := by
  induction cs generalizing b with
  | nil => exact hu.of_head hd
  | cons a cs ih =>
      have hn : ¬Elaborates b (a :: cs ++ ds) := not_elaborates_append hc h.1 hd
      exact ⟨hn, ih h.2⟩

/-- With a space after it, a text holds no keyword to drop. -/
def Sealed (cs : List Char) : Prop := Unelaborated none (cs ++ [' '])

theorem unelaborated_space (h : Unelaborated none cs) : Unelaborated none (' ' :: cs) :=
  ⟨not_elaborates_of_not_word (by decide) cs,
    h.congr (iff_of_true .none (.of_blank (by decide)))⟩

theorem Sealed.append (h : Sealed cs) (hu : Unelaborated none ds)
    (hd : ∀ c ∈ ds.head?, isWordChar c = false) : Unelaborated none (cs ++ ds) :=
  unelaborated_append (by decide) h hu hd

/-- A blank seals what stands before it. -/
theorem sealed_of_blank (hb : AtBoundary b) (hc : isBlank c = true)
    (h : Unelaborated b (cs ++ c :: ds)) : Sealed cs := by
  rw [← List.singleton_append, ← List.append_assoc] at h
  have hs : Unelaborated b (cs ++ [' ']) :=
    unelaborated_append hc h.of_append (unelaborated_space trivial) (by simp; decide)
  exact hs.congr (iff_of_true hb .none)

theorem unelaborated_of_not_blank (h : ∀ c ∈ cs, isBlank c = false) : Unelaborated b cs := by
  induction cs generalizing b with
  | nil => trivial
  | cons c cs ih =>
      refine ⟨?_, ih (List.forall_mem_cons.1 h).2⟩
      rintro ⟨-, kw, -, x, rest, hx, heq⟩
      rw [h x (by simp [heq])] at hx
      exact Bool.false_ne_true hx

/-! ## Words -/

/-- All words but the last one have a blank after them. -/
private theorem sealed_of_mem_wordsFrom (acc : List Char) (hb : AtBoundary b)
    (h : Unelaborated b (acc.reverse ++ cs)) (hw : w ∈ (wordsFrom acc cs).dropLast) :
    Sealed w := by
  induction cs generalizing acc b with
  | nil =>
      rw [wordsFrom] at hw
      split at hw <;> exact absurd hw (by simp)
  | cons c cs ih =>
      rw [wordsFrom] at hw
      split at hw
      · rename_i hc
        have hrest : Unelaborated (some c) cs := h.after
        have hboundary : AtBoundary (some c) := .of_blank hc
        split at hw
        · exact ih [] hboundary hrest hw
        · cases htail : wordsFrom [] cs with
          | nil =>
              rw [htail] at hw
              exact absurd hw (by simp)
          | cons v vs =>
              rw [htail, List.dropLast_cons_of_ne_nil (List.cons_ne_nil v vs), ← htail] at hw
              rcases List.mem_cons.1 hw with rfl | hw
              · exact sealed_of_blank hb hc h
              · exact ih [] hboundary hrest hw
      · refine ih (c :: acc) hb ?_ hw
        simpa using h

theorem sealed_of_mem_words (h : Unelaborated none cs) (hw : w ∈ (words cs).dropLast) :
    Sealed w :=
  sealed_of_mem_wordsFrom [] .none h hw

theorem unelaborated_spaced (hw : ∀ w ∈ ws, IsWord w) (hs : ∀ w ∈ ws.dropLast, Sealed w) :
    Unelaborated none (spaced ws) := by
  induction ws with
  | nil => trivial
  | cons w ws ih =>
      obtain ⟨hfirst, hrest⟩ := List.forall_mem_cons.1 hw
      cases ws with
      | nil => exact unelaborated_of_not_blank hfirst.2
      | cons v ws =>
          rw [List.dropLast_cons_of_ne_nil (List.cons_ne_nil v ws)] at hs
          obtain ⟨hsealed, hs⟩ := List.forall_mem_cons.1 hs
          rw [spaced]
          exact hsealed.append (unelaborated_space (ih hrest hs)) (by simp; decide)

/-- A sealed text has sealed words. -/
theorem Sealed.of_mem_words (h : Sealed cs) (hw : w ∈ words cs) : Sealed w := by
  have hmark : Unelaborated none [' ', '*'] :=
    unelaborated_space (unelaborated_of_not_blank (by decide))
  have hwords : words (cs ++ [' ', '*']) = words cs ++ ["*".toList] :=
    words_append_blank (by decide) cs ['*']
  refine sealed_of_mem_words (h.append hmark (by simp; decide)) ?_
  rwa [hwords, List.dropLast_concat]

/-- Sealed words one space apart are sealed. -/
theorem sealed_spaced (hw : ∀ w ∈ ws, IsWord w) (hs : ∀ w ∈ ws, Sealed w) :
    Sealed (spaced ws) := by
  have hmark : IsWord ['*'] := ⟨by decide, by decide⟩
  cases ws with
  | nil => exact unelaborated_space trivial
  | cons w ws =>
      have h : Unelaborated none (spaced (w :: ws ++ [['*']])) := by
        refine unelaborated_spaced (fun v hv => ?_) ?_
        · rcases List.mem_append.1 hv with hv | hv
          · exact hw v hv
          · rwa [List.mem_singleton.1 hv]
        · rwa [List.dropLast_concat]
      rw [spaced_append (List.cons_ne_nil w ws) (by simp)] at h
      rw [List.append_cons] at h
      exact h.of_append

theorem mem_dropLast_filter {α : Type} {p : α → Bool} {xs : List α} {x : α}
    (h : x ∈ (xs.filter p).dropLast) : x ∈ xs.dropLast := by
  induction xs with
  | nil => exact h
  | cons y ys ih =>
      have hmem : x ∈ (ys.filter p).dropLast → x ∈ (y :: ys).dropLast := by
        intro hx
        cases ys with
        | nil => exact nomatch hx
        | cons z zs =>
            rw [List.dropLast_cons_of_ne_nil (List.cons_ne_nil z zs)]
            exact List.mem_cons_of_mem y (ih hx)
      by_cases hy : p y = true
      · rw [List.filter_cons_of_pos hy] at h
        cases hys : ys.filter p with
        | nil => rw [hys] at h; exact nomatch h
        | cons z zs =>
            rw [hys, List.dropLast_cons_of_ne_nil (List.cons_ne_nil z zs), ← hys] at h
            rcases List.mem_cons.1 h with rfl | hx
            · cases ys with
              | nil => exact nomatch hys
              | cons z' zs' => simp
            · exact hmem hx
      · rw [List.filter_cons_of_neg hy] at h
        exact hmem h

/-- Words that are left out leave no keyword to be dropped. -/
theorem unelaborated_spaced_filter (h : Unelaborated none cs) (p : List Char → Bool) :
    Unelaborated none (spaced ((words cs).filter p)) := by
  refine unelaborated_spaced (fun w hw => ?_) fun w hw => ?_
  · exact isWord_of_mem_words (List.mem_filter.1 hw |>.1)
  · exact sealed_of_mem_words h (mem_dropLast_filter hw)

/-! ## Cores -/

/-- A word that says how a type is qualified. -/
def IsQualifier (w : List Char) : Prop := w = "const".toList ∨ w ∈ silentQualifiers

instance (w : List Char) : Decidable (IsQualifier w) :=
  inferInstanceAs (Decidable (_ ∨ _))

theorem isWordChar_of_isQualifier (hq : IsQualifier w) : ∀ c ∈ w, isWordChar c = true := by
  simp only [IsQualifier, silentQualifiers, List.mem_cons, List.not_mem_nil, or_false] at hq
  rcases hq with rfl | rfl | rfl | rfl <;> decide

/-- A name as it can stand at the core of what is read. -/
structure IsCore (name : String) : Prop where
  /-- It consists of words with single spaces between them. -/
  spaced : Text.spaced (words name.toList) = name.toList
  unqualified : ∀ w ∈ words name.toList, ¬IsQualifier w
  unelaborated : Unelaborated none name.toList

/-- The words of a text but for the qualifiers among them. -/
def keptWords (cs : List Char) : List (List Char) :=
  (words cs).filter fun w => w != "const".toList && !silentQualifiers.contains w

private theorem kept_iff :
    (w != "const".toList && !silentQualifiers.contains w) = true ↔ ¬IsQualifier w := by
  simp [IsQualifier]

theorem mem_keptWords : w ∈ keptWords cs ↔ w ∈ words cs ∧ ¬IsQualifier w := by
  rw [keptWords, List.mem_filter, kept_iff]

theorem keptWords_eq_self (h : ∀ w ∈ words cs, ¬IsQualifier w) : keptWords cs = words cs :=
  List.filter_eq_self.2 fun w hw => kept_iff.2 (h w hw)

theorem keptWords_of_qualifiers (h : ∀ w ∈ words cs, IsQualifier w) : keptWords cs = [] :=
  List.eq_nil_iff_forall_not_mem.2 fun w hw => (mem_keptWords.1 hw).2 (h w (mem_keptWords.1 hw).1)

theorem keptWords_eq_append (h : words cs = words ds ++ words es) :
    keptWords cs = keptWords ds ++ keptWords es := by
  rw [keptWords, h, List.filter_append]
  rfl

theorem isWord_of_mem_keptWords (hw : w ∈ keptWords cs) : IsWord w :=
  isWord_of_mem_words (mem_keptWords.1 hw).1

theorem words_spaced_keptWords (cs : List Char) :
    words (spaced (keptWords cs)) = keptWords cs :=
  words_spaced fun _ => isWord_of_mem_keptWords

theorem keptWords_spaced_append {vs ws : List (List Char)} (h : ∀ w ∈ vs ++ ws, IsWord w) :
    keptWords (spaced (vs ++ ws)) = keptWords (spaced vs) ++ keptWords (spaced ws) := by
  obtain ⟨hv, hw⟩ := List.forall_mem_append.1 h
  exact keptWords_eq_append (by rw [words_spaced h, words_spaced hv, words_spaced hw])

theorem readNamed_eq (cs : List Char) :
    readNamed cs =
      named (String.ofList (spaced (keptWords cs))) ((words cs).contains "const".toList) := by
  have hname : joinWith " " ((keptWords cs).map String.ofList) =
      String.ofList (spaced (keptWords cs)) := by
    rw [← String.toList_inj, toList_joinWith_space, String.toList_ofList]
  rw [← hname]
  rfl

/-- Words one space apart are read as the name they spell if none is a qualifier. -/
theorem readNamed_eq_self_iff (hs : spaced (words cs) = cs) :
    readNamed cs = named (String.ofList cs) false ↔ ∀ w ∈ words cs, ¬IsQualifier w := by
  rw [readNamed_eq]
  constructor
  · intro h w hw
    have hkept := congrArg String.toList (Shape.named.inj h).1
    rw [String.toList_ofList, String.toList_ofList] at hkept
    have hwords : keptWords cs = words cs := by rw [← words_spaced_keptWords, hkept]
    exact (mem_keptWords.1 (hwords ▸ hw)).2
  · intro h
    have hconst : (words cs).contains "const".toList = false := by
      rw [Bool.eq_false_iff, ne_eq, List.contains_iff_mem]
      exact fun hmem => h _ hmem (Or.inl rfl)
    rw [keptWords_eq_self h, hs, hconst]

theorem toList_of_readNamed (hr : readNamed cs = named name isConst) :
    name.toList = spaced (keptWords cs) := by
  rw [readNamed_eq] at hr
  rw [← (Shape.named.inj hr).1, String.toList_ofList]

/-- A name that is read is a core. -/
theorem isCore_of_readNamed (h : Unelaborated none cs)
    (hr : readNamed cs = named name isConst) : IsCore name := by
  have hname := toList_of_readNamed hr
  constructor
  · rw [hname, words_spaced_keptWords]
  · rw [hname, words_spaced_keptWords]
    exact fun w hw => (mem_keptWords.1 hw).2
  · rw [hname]
    exact unelaborated_spaced_filter h _

theorem readNamed_of_words (h : words cs = words ds) : readNamed cs = readNamed ds := by
  rw [readNamed, readNamed, h]

private theorem sealed_const : Sealed "const".toList := by
  have h := (drops_dropElaborated none ("const".toList ++ [' '])).unelaborated
  rwa [show dropElaborated none 0 ("const".toList ++ [' ']) = "const".toList ++ [' '] by
    decide] at h

/-- The spelling of a name, const or not. -/
def nameText (name : String) (isConst : Bool) : List Char :=
  (if isConst then "const ".toList else []) ++ name.toList

theorem unelaborated_nameText (h : Unelaborated none name.toList) (isConst : Bool) :
    Unelaborated none (nameText name isConst) := by
  cases isConst with
  | false => exact h
  | true =>
      have hs := sealed_const.append (unelaborated_space h) (by simp; decide)
      exact hs

theorem words_nameText (name : String) (isConst : Bool) :
    words (nameText name isConst) =
      (if isConst then ["const".toList] else []) ++ words name.toList := by
  cases isConst with
  | false => rfl
  | true =>
      have hword : IsWord "const".toList := ⟨by decide, by simp; decide⟩
      exact words_word_blank hword (show isBlank ' ' = true by decide) name.toList

/-- A core is read from its own spelling, const or not. -/
theorem IsCore.readNamed_clean (h : IsCore name) (isConst : Bool) :
    readNamed (clean (nameText name isConst)) = named name isConst := by
  have hwords : words (clean (nameText name isConst)) = words (nameText name isConst) := by
    rw [words_clean, (unelaborated_nameText h.unelaborated isConst).dropElaborated_eq]
  have hconst : "const".toList ∉ words name.toList := fun hmem =>
    h.unqualified _ hmem (Or.inl rfl)
  have hkept : keptWords (nameText name isConst) = words name.toList := by
    rw [← keptWords_eq_self h.unqualified, keptWords, words_nameText]
    cases isConst with
    | false => rfl
    | true => exact List.filter_cons_of_neg (by decide)
  have hcontains : (words (nameText name isConst)).contains "const".toList = isConst := by
    rw [words_nameText, Bool.eq_iff_iff, List.contains_iff_mem]
    cases isConst with
    | false => exact iff_of_false hconst Bool.false_ne_true
    | true => exact iff_of_true List.mem_cons_self rfl
  rw [readNamed_of_words hwords, readNamed_eq, hkept, hcontains, h.spaced, String.ofList_toList]

end DeclAtlas.Shape
