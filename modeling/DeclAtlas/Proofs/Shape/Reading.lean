import DeclAtlas.Proofs.Shape.Names
import DeclAtlas.Shape.Printer

/-!
# Reading and spelling again

`Reads` is the reading of layers as a relation, without fuel: one rule for each layer, one
for a blank, and one for the name at the core. A text is read from its end, so the relation
is about reversed texts, as `declarator` is.

What can be read is `Readable`: its core is made of whole words, no keyword in it could be
dropped, and no extent holds a bracket. This is all it takes for the spelling of such a shape
to be the spelling of a name only if the shape is that name. A layer leaves a mark at the
end; it survives cleaning and is met before any name.

## Main results

* `reads_declarator`, `Reads.declarator_eq`: the relation is what the reader computes.
* `readable_parse`: whatever is read is readable.
* `eq_of_parse_render`: a readable shape that is spelled like a name is that name.
-/

namespace DeclAtlas.Shape

open Text

variable {b : Option Char} {c : Char} {cs ds rest w e : List Char} {es : List (List Char)}
  {s s' : Shape}
  {fuel : Nat} {name : String} {isConst : Bool}

/-! ## Extents -/

/-- A text without brackets. -/
def Bracketless (cs : List Char) : Prop := ∀ c ∈ cs, c ≠ '[' ∧ c ≠ ']'

/-- Extents in their brackets, in a row. -/
def rowText (es : List (List Char)) : List Char := es.flatMap fun e => '[' :: e ++ [']']

theorem rowText_concat (es : List (List Char)) (e : List Char) :
    rowText (es ++ [e]) = rowText es ++ ('[' :: e ++ [']']) := by
  simp [rowText]

theorem length_le_rowText (es : List (List Char)) : es.length ≤ (rowText es).length := by
  induction es with
  | nil => exact Nat.zero_le _
  | cons e es ih =>
      simp only [rowText, List.flatMap_cons, List.length_append, List.length_cons] at ih ⊢
      omega

private theorem plain_iff : (c != '[' && c != ']') = true ↔ c ≠ '[' ∧ c ≠ ']' := by
  rw [Bool.and_eq_true, bne_iff_ne, bne_iff_ne]

theorem takeExtent_brackets (he : Bracketless e) (cs : List Char) :
    takeExtent? (('[' :: e ++ [']']).reverse ++ cs) = some (e, cs) := by
  have hplain : ∀ c ∈ e.reverse, (c != '[' && c != ']') = true := fun c hc =>
    plain_iff.2 (he c (List.mem_reverse.1 hc))
  have htext : ('[' :: e ++ [']']).reverse ++ cs = ']' :: (e.reverse ++ '[' :: cs) := by simp
  have hdrop : (e.reverse ++ '[' :: cs).dropWhile (fun c => c != '[' && c != ']') = '[' :: cs := by
    rw [List.dropWhile_append_of_pos hplain]
    rfl
  have htake : (e.reverse ++ '[' :: cs).takeWhile (fun c => c != '[' && c != ']') =
      e.reverse := by
    rw [List.takeWhile_append_of_pos hplain]
    simp
  rw [htext, takeExtent?]
  simp only [hdrop, htake, List.reverse_reverse]

theorem takeExtent_eq_some (h : takeExtent? cs = some (e, rest)) :
    Bracketless e ∧ cs = ('[' :: e ++ [']']).reverse ++ rest := by
  unfold takeExtent? at h
  split at h
  · rename_i cs'
    dsimp only at h
    split at h
    · rename_i rest' hdrop
      obtain ⟨rfl, rfl⟩ := Prod.mk.inj (Option.some.inj h)
      constructor
      · intro c hc
        have hp := List.mem_takeWhile_imp (List.mem_reverse.1 hc)
        exact plain_iff.1 hp
      · have hsplit := List.takeWhile_append_dropWhile (p := fun c => c != '[' && c != ']')
          (l := cs')
        rw [hdrop] at hsplit
        simpa using hsplit.symm
    · exact nomatch h
  · exact nomatch h

theorem takeExtents_row (hb : ∀ e ∈ es, Bracketless e) (hn : takeExtent? rest = none)
    (hf : es.length ≤ fuel) (found : List (List Char)) :
    takeExtents fuel found ((rowText es).reverse ++ rest) = (es ++ found, rest) := by
  induction es using List.reverseRecOn generalizing fuel found with
  | nil => cases fuel <;> simp [takeExtents, rowText, hn]
  | append_singleton es e ih =>
      rw [List.length_append, List.length_singleton] at hf
      obtain ⟨fuel, rfl⟩ := Nat.exists_eq_add_of_le' (show 1 ≤ fuel by omega)
      have he : Bracketless e := hb e (by simp)
      rw [rowText_concat, List.reverse_append, List.append_assoc, takeExtents,
        takeExtent_brackets he]
      dsimp only
      rw [ih (fun e' he' => hb e' (by simp [he'])) (by omega), List.append_assoc,
        List.singleton_append]

/-- With enough fuel the whole row is taken. -/
theorem takeExtents_eq (hf : cs.length ≤ fuel) (found : List (List Char)) :
    ∃ es rest, takeExtents fuel found cs = (es ++ found, rest) ∧
      cs = (rowText es).reverse ++ rest ∧ (∀ e ∈ es, Bracketless e) ∧
      takeExtent? rest = none := by
  induction fuel generalizing cs found with
  | zero =>
      obtain rfl : cs = [] := List.length_eq_zero_iff.1 (Nat.le_zero.1 hf)
      exact ⟨[], [], rfl, rfl, by simp, rfl⟩
  | succ fuel ih =>
      cases h : takeExtent? cs with
      | none => exact ⟨[], cs, by rw [takeExtents, h]; rfl, rfl, by simp, h⟩
      | some p =>
          obtain ⟨e, rest⟩ := p
          obtain ⟨he, rfl⟩ := takeExtent_eq_some h
          simp only [List.length_append, List.length_reverse, List.length_cons] at hf
          have hfuel : rest.length ≤ fuel := by omega
          obtain ⟨es, rest', htake, rfl, hes, hn⟩ := ih hfuel (e :: found)
          refine ⟨es ++ [e], rest', ?_, ?_, ?_, hn⟩
          · rw [takeExtents, h]
            dsimp only
            rw [htake, List.append_assoc, List.singleton_append]
          · simp [rowText_concat]
          · intro e' he'
            rcases List.mem_append.1 he' with he' | he'
            · exact hes e' he'
            · rwa [List.mem_singleton.1 he']

/-! ## Reading as a relation -/

/-- No layer and no blank stands at the end of a text, which is reversed. -/
structure Layerless (cs : List Char) : Prop where
  head : ∀ c ∈ cs.head?, isBlank c = false ∧ c ≠ '&' ∧ c ≠ '*'
  extent : takeExtent? cs = none
  constPointer : takeConstPointer? cs = none

/-- A reversed text is read as a shape. -/
inductive Reads : List Char → Shape → Prop where
  | blank {c : Char} {cs : List Char} {s : Shape} (hc : isBlank c = true) (h : Reads cs s) :
      Reads (c :: cs) s
  | row {es : List (List Char)} {rest : List Char} {s : Shape} (hne : es ≠ [])
      (hb : ∀ e ∈ es, Bracketless e) (hn : takeExtent? rest = none) (h : Reads rest s) :
      Reads ((rowText es).reverse ++ rest) (es.foldr (fun e s => array s (extentOf e)) s)
  | rValueRef {cs : List Char} {s : Shape} (h : Reads cs s) :
      Reads ('&' :: '&' :: cs) (rValueRef s)
  | lValueRef {cs : List Char} {s : Shape} (hn : cs.head? ≠ some '&') (h : Reads cs s) :
      Reads ('&' :: cs) (lValueRef s)
  | pointer {cs : List Char} {s : Shape} (h : Reads cs s) : Reads ('*' :: cs) (pointer s false)
  | constPointer {cs rest : List Char} {s : Shape} (hp : takeConstPointer? cs = some rest)
      (h : Reads rest s) : Reads cs (pointer s true)
  | name {cs : List Char} (hl : Layerless cs) : Reads cs (readNamed cs.reverse)

theorem reads_of_trimStart (h : Reads (trimStart cs) s) : Reads cs s := by
  induction cs with
  | nil => exact h
  | cons c cs ih =>
      by_cases hc : isBlank c = true
      · rw [trimStart_append_blank hc] at h
        exact .blank hc (ih h)
      · rwa [trimStart_cons (eq_false_of_ne_true hc)] at h

theorem length_of_takeConstPointer (h : takeConstPointer? cs = some rest) :
    rest.length < cs.length := by
  unfold takeConstPointer? at h
  split at h
  · rename_i tail
    split at h
    · rename_i rest' htrim
      cases h
      have hsuffix := (trimStart_suffix tail).length_le
      rw [htrim] at hsuffix
      simp only [List.length_cons] at hsuffix ⊢
      omega
    · exact nomatch h
  · exact nomatch h

/-- The reader reads what the relation says. -/
theorem reads_declarator (hf : cs.length < fuel) : Reads cs (declarator fuel cs) := by
  induction fuel generalizing cs with
  | zero => exact absurd hf (Nat.not_lt_zero _)
  | succ fuel ih =>
      have hlen : (trimStart cs).length ≤ fuel :=
        (trimStart_suffix cs).length_le.trans (Nat.le_of_lt_succ hf)
      have hhead := head_trimStart cs
      refine reads_of_trimStart ?_
      rw [declarator]
      generalize trimStart cs = ds at hlen hhead
      obtain ⟨es, rest, htake, rfl, hb, hn⟩ := takeExtents_eq hlen []
      rw [htake, List.append_nil]
      cases es with
      | cons e es =>
          refine .row (List.cons_ne_nil e es) hb hn (ih ?_)
          simp only [rowText, List.flatMap_cons, List.length_append, List.length_reverse,
            List.length_cons] at hlen
          omega
      | nil =>
          dsimp only
          simp only [rowText, List.flatMap_nil, List.reverse_nil, List.nil_append] at hlen hhead ⊢
          split
          · exact .rValueRef (ih (by simp only [List.length_cons] at hlen; omega))
          · rename_i rest hne
            refine .lValueRef ?_ (ih (by simp only [List.length_cons] at hlen; omega))
            intro hamp
            obtain ⟨tail, rfl⟩ := List.head?_eq_some_iff.1 hamp
            exact hne tail rfl
          · exact .pointer (ih (by simp only [List.length_cons] at hlen; omega))
          · rename_i hamp hamp' hstar
            cases hp : takeConstPointer? rest with
            | some rest' =>
                have := length_of_takeConstPointer hp
                exact .constPointer hp (ih (by omega))
            | none =>
                refine .name ⟨?_, hn, hp⟩
                intro c hc
                obtain ⟨tail, rfl⟩ := List.head?_eq_some_iff.1 hc
                refine ⟨hhead c hc, ?_, ?_⟩ <;> rintro rfl
                · exact hamp' tail rfl
                · exact hstar tail rfl

theorem takeExtent_none_of_head {a : Char} (ha : a ≠ ']') (cs : List Char) :
    takeExtent? (a :: cs) = none := by
  cases h : takeExtent? (a :: cs) with
  | none => rfl
  | some p =>
      obtain ⟨e, rest⟩ := p
      have heq := (takeExtent_eq_some h).2
      rw [List.reverse_append] at heq
      exact absurd (List.cons.inj heq).1 ha

private theorem takeExtents_none (hn : takeExtent? cs = none) (fuel : Nat) :
    takeExtents fuel [] cs = ([], cs) := by
  have h : takeExtents fuel [] ((rowText []).reverse ++ cs) = ([] ++ [], cs) :=
    takeExtents_row (by simp) hn (Nat.zero_le fuel) []
  simpa [rowText] using h

private theorem not_blank_row (hne : es ≠ []) (rest : List Char) :
    trimStart ((rowText es).reverse ++ rest) = (rowText es).reverse ++ rest := by
  obtain ⟨es, e, rfl⟩ := (List.eq_nil_or_concat es).resolve_left hne
  rw [List.concat_eq_append, rowText_concat]
  simp [trimStart_cons (show isBlank ']' = false by decide)]

/-- The relation has one result, which the reader computes. -/
theorem Reads.declarator_eq (h : Reads cs s) (hf : cs.length < fuel) :
    declarator fuel cs = s := by
  induction h generalizing fuel with
  | @blank c cs s hc h ih =>
      have hcs := ih (Nat.lt_of_succ_lt hf)
      obtain ⟨fuel, rfl⟩ := Nat.exists_eq_add_of_le' (show 1 ≤ fuel by omega)
      rw [declarator] at hcs ⊢
      rwa [trimStart_append_blank hc]
  | @row es rest s hne hb hn h ih =>
      obtain ⟨fuel, rfl⟩ := Nat.exists_eq_add_of_le' (show 1 ≤ fuel by omega)
      have hlen := length_le_rowText es
      have hpos := List.length_pos_iff.2 hne
      simp only [List.length_append, List.length_reverse] at hf
      rw [declarator, not_blank_row hne, takeExtents_row hb hn (by omega), List.append_nil]
      have hs : declarator fuel rest = s := ih (by omega)
      obtain ⟨e, es, rfl⟩ := List.exists_cons_of_ne_nil hne
      simp only [hs]
  | @rValueRef cs s h ih =>
      obtain ⟨fuel, rfl⟩ := Nat.exists_eq_add_of_le' (show 1 ≤ fuel by omega)
      simp only [List.length_cons] at hf
      rw [declarator, trimStart_cons (by decide),
        takeExtents_none (takeExtent_none_of_head (by decide) _)]
      have hs : declarator fuel cs = s := ih (by omega)
      simp only [hs]
  | @lValueRef cs s hamp h ih =>
      obtain ⟨fuel, rfl⟩ := Nat.exists_eq_add_of_le' (show 1 ≤ fuel by omega)
      simp only [List.length_cons] at hf
      rw [declarator, trimStart_cons (by decide),
        takeExtents_none (takeExtent_none_of_head (by decide) _)]
      dsimp only
      split
      · rename_i heq
        rw [(List.cons.inj heq).2] at hamp
        exact absurd rfl hamp
      · rename_i heq
        rw [← (List.cons.inj heq).2, ih (by omega)]
      · rename_i heq
        exact absurd (List.cons.inj heq).1 (by decide)
      · rename_i hno _
        exact absurd rfl (hno cs)
  | @pointer cs s h ih =>
      obtain ⟨fuel, rfl⟩ := Nat.exists_eq_add_of_le' (show 1 ≤ fuel by omega)
      simp only [List.length_cons] at hf
      rw [declarator, trimStart_cons (by decide),
        takeExtents_none (takeExtent_none_of_head (by decide) _)]
      have hs : declarator fuel cs = s := ih (by omega)
      simp only [hs]
  | @constPointer cs rest s hp h ih =>
      obtain ⟨fuel, rfl⟩ := Nat.exists_eq_add_of_le' (show 1 ≤ fuel by omega)
      have hlen := length_of_takeConstPointer hp
      have hhead : ∃ tail, cs = 't' :: tail := by
        unfold takeConstPointer? at hp
        split at hp
        · exact ⟨_, rfl⟩
        · exact nomatch hp
      obtain ⟨tail, rfl⟩ := hhead
      rw [declarator, trimStart_cons (by decide),
        takeExtents_none (takeExtent_none_of_head (by decide) _)]
      have hs : declarator fuel rest = s := ih (by omega)
      simp only [hp, hs]
      rfl
  | @name cs hl =>
      obtain ⟨fuel, rfl⟩ := Nat.exists_eq_add_of_le' (show 1 ≤ fuel by omega)
      rw [declarator, trimStart_eq_self fun c hc => (hl.head c hc).1,
        takeExtents_none hl.extent]
      dsimp only
      split
      · exact absurd rfl (hl.head '&' rfl).2.1
      · exact absurd rfl (hl.head '&' rfl).2.1
      · exact absurd rfl (hl.head '*' rfl).2.2
      · rw [hl.constPointer]

/-- Every text is read as one shape. -/
theorem exists_reads (cs : List Char) : ∃ s, Reads cs s :=
  ⟨_, reads_declarator (Nat.lt_succ_self cs.length)⟩

theorem Reads.unique (h : Reads cs s) (h' : Reads cs s') : s = s' :=
  (h.declarator_eq (Nat.lt_succ_self _)).symm.trans (h'.declarator_eq (Nat.lt_succ_self _))

/-! ## Spellings -/

theorem parseChars_of_stray (h : hasStrayParen (clean cs) = true) :
    parseChars cs = verbatim (String.ofList (clean cs)) := by
  rw [parseChars, if_pos h]

/-- A spelling that is taken apart is read from its end. -/
theorem parseChars_eq_iff (h : hasStrayParen (clean cs) = false) :
    parseChars cs = s ↔ Reads (clean cs).reverse s := by
  have hf : (clean cs).reverse.length < (clean cs).length + 1 := by simp
  rw [parseChars, if_neg (by simp [h])]
  constructor
  · rintro rfl
    exact reads_declarator hf
  · intro hr
    exact hr.declarator_eq hf

theorem toList_render (s : Shape) : s.render.toList = spell s [] := String.toList_ofList

theorem parse_render_eq (s : Shape) : parse s.render = parseChars (spell s []) := by
  rw [parse, toList_render]

/-! ## Shapes that can be read -/

/-- A shape with a core, extents and texts as they can be read. -/
def Readable : Shape → Prop
  | named name _ => IsCore name
  | pointer s _ | lValueRef s | rValueRef s => Readable s
  | array s extent => Readable s ∧ ∀ e ∈ extent, Bracketless e.toList
  | verbatim text => hasStrayParen (clean text.toList) = true

theorem bracketless_extentOf (he : Bracketless e) :
    ∀ x ∈ extentOf e, Bracketless x.toList := by
  intro x hx
  rw [extentOf] at hx
  split at hx
  · exact nomatch hx
  · rw [← Option.some.inj hx, String.toList_ofList]
    intro c hc
    exact he c ((trimStart_suffix e).subset ((trimEnd_isPrefix _).subset hc))

theorem Readable.row (h : Readable s) (hb : ∀ e ∈ es, Bracketless e) :
    Readable (es.foldr (fun e s => array s (extentOf e)) s) := by
  induction es with
  | nil => exact h
  | cons e es ih =>
      obtain ⟨he, hes⟩ := List.forall_mem_cons.1 hb
      exact ⟨ih hes, bracketless_extentOf he⟩

theorem suffix_of_takeConstPointer (h : takeConstPointer? cs = some rest) : rest <:+ cs := by
  unfold takeConstPointer? at h
  split at h
  · rename_i tail
    split at h
    · rename_i rest' htrim
      cases h
      have hsuffix := trimStart_suffix tail
      rw [htrim] at hsuffix
      exact (List.suffix_cons '*' rest).trans (hsuffix.trans
        (List.suffix_append "tsnoc".toList tail))
    · exact nomatch h
  · exact nomatch h

/-- What is read from a text without keywords to drop can be read. -/
theorem Reads.readable (h : Reads cs s) (hu : Unelaborated none cs.reverse) : Readable s := by
  induction h with
  | blank _ _ ih => exact ih (hu.of_isPrefix (by simp))
  | row _ hb _ _ ih => exact (ih (hu.of_isPrefix (by simp))).row hb
  | rValueRef _ ih => exact ih (hu.of_isPrefix (by simp))
  | lValueRef _ _ ih => exact ih (hu.of_isPrefix (by simp))
  | pointer _ ih => exact ih (hu.of_isPrefix (by simp))
  | constPointer hp _ ih =>
      exact ih (hu.of_isPrefix ( List.reverse_prefix.2 (suffix_of_takeConstPointer hp)))
  | @name cs hl => exact isCore_of_readNamed hu rfl

/-- Whatever is read can be read. -/
theorem readable_parse (spelling : String) : Readable (parse spelling) := by
  rw [parse]
  generalize spelling.toList = cs
  cases hs : hasStrayParen (clean cs) with
  | true =>
      rw [parseChars_of_stray hs, Readable, String.toList_ofList, clean_clean]
      exact hs
  | false =>
      have hr := (parseChars_eq_iff hs).1 rfl
      exact hr.readable (by rw [List.reverse_reverse]; exact unelaborated_clean cs)

theorem Readable.inner (h : Readable s) (hi : s.inner? = some s') : Readable s' := by
  cases s with
  | named | verbatim => exact nomatch hi
  | pointer | lValueRef | rValueRef => exact Option.some.inj hi ▸ h
  | array => exact Option.some.inj hi ▸ h.1

theorem Readable.withConst (h : Readable s) (c : Bool) : Readable (s.withConst c) := by
  induction s with
  | array s extent ih => exact ⟨ih h.1, h.2⟩
  | named | pointer | lValueRef | rValueRef | verbatim => exact h

theorem Readable.mapNamed (h : Readable s) {f : String → Bool → Shape}
    (hf : ∀ name c, IsCore name → Readable (f name c)) : Readable (s.mapNamed f) := by
  induction s with
  | named name c => exact hf name c h
  | pointer s c ih => exact ih h
  | lValueRef s ih => exact ih h
  | rValueRef s ih => exact ih h
  | array s extent ih => exact ⟨ih h.1, h.2⟩
  | verbatim text => exact h

/-! ## Spellings that end in a layer -/

/-- The last layer of a text is a pointer, a reference or an array. -/
inductive EndsInLayer : List Char → Prop where
  | mark {c : Char} (cs : List Char) (hc : c = '*' ∨ c = '&') : EndsInLayer (cs ++ [c])
  | constPointer (cs : List Char) : EndsInLayer (cs ++ "*const".toList)
  | extent {e : List Char} (cs : List Char) (he : Bracketless e) :
      EndsInLayer (cs ++ '[' :: (e ++ [']']))

theorem EndsInLayer.append (h : EndsInLayer cs) (ds : List Char) : EndsInLayer (ds ++ cs) := by
  cases h with
  | mark cs hc =>
      rw [← List.append_assoc]
      exact .mark (ds ++ cs) hc
  | constPointer cs =>
      rw [← List.append_assoc]
      exact .constPointer (ds ++ cs)
  | extent cs he =>
      rw [← List.append_assoc]
      exact .extent (ds ++ cs) he

/-- Cleaning keeps the layer at the end. -/
theorem EndsInLayer.clean (h : EndsInLayer cs) : EndsInLayer (clean cs) := by
  cases h with
  | mark cs hc =>
      rw [clean_append_mark (by rcases hc with rfl | rfl <;> exact ⟨by decide, by decide⟩)]
      exact .mark _ hc
  | constPointer cs =>
      have htext : cs ++ "*const".toList = cs ++ '*' :: "const".toList := rfl
      rw [htext, clean_append_mark ⟨by decide, by decide⟩]
      exact .constPointer _
  | @extent e cs he =>
      rw [clean_append_mark ⟨by decide, by decide⟩,
        dropElaborated_append_mark ⟨by decide, by decide⟩]
      rw [show dropElaborated none 0 [] = [] from rfl, trimEnd_concat (by decide),
        squeeze_append_cons (by decide)]
      refine .extent _ fun c hc => ?_
      rcases mem_squeeze hc with hc | rfl
      · exact he c ((drops_dropElaborated none e).mem hc)
      · decide

theorem EndsInLayer.not_layerless (h : EndsInLayer cs) : ¬Layerless (trimStart cs.reverse) := by
  intro hl
  cases h with
  | @mark c cs hc =>
      have hhead : trimStart (cs ++ [c]).reverse = c :: cs.reverse := by
        rw [List.reverse_append]
        exact trimStart_cons (by rcases hc with rfl | rfl <;> decide) _
      rw [hhead] at hl
      obtain ⟨-, hamp, hstar⟩ := hl.head c rfl
      exact hc.elim hstar hamp
  | constPointer cs =>
      have hp : takeConstPointer? (trimStart (cs ++ "*const".toList).reverse) =
          some cs.reverse := by
        rw [List.reverse_append]
        rfl
      exact nomatch hp.symm.trans hl.constPointer
  | @extent e cs he =>
      have he' : takeExtent? (trimStart (cs ++ '[' :: (e ++ [']'])).reverse) =
          some (e, cs.reverse) := by
        rw [List.reverse_append, trimStart_eq_self (by simp; decide)]
        exact takeExtent_brackets he cs.reverse
      exact nomatch he'.symm.trans hl.extent

theorem Reads.eq_named (h : Reads cs s) :
    s = named name isConst → readNamed cs.reverse = s ∧ Layerless (trimStart cs) := by
  induction h with
  | @blank c cs s hc _ ih =>
      intro hs
      obtain ⟨hr, hl⟩ := ih hs
      refine ⟨?_, by rwa [trimStart_append_blank hc]⟩
      rw [← hr]
      refine readNamed_of_words ?_
      rw [List.reverse_cons, ← words_trimEnd, trimEnd_append_blank hc, words_trimEnd]
  | @row es rest s hne _ _ _ _ =>
      intro hs
      obtain ⟨e, es, rfl⟩ := List.exists_cons_of_ne_nil hne
      exact nomatch hs
  | rValueRef | lValueRef | pointer | constPointer => exact nofun
  | @name cs hl =>
      intro _
      refine ⟨rfl, ?_⟩
      rwa [trimStart_eq_self fun c hc => (hl.head c hc).1]

/-- A spelling that ends in a layer is not the spelling of a name. -/
theorem EndsInLayer.parseChars_ne (h : EndsInLayer cs) :
    parseChars cs ≠ named name isConst := by
  intro hp
  cases hs : hasStrayParen (Shape.clean cs) with
  | true =>
      rw [parseChars_of_stray hs] at hp
      exact nomatch hp
  | false =>
      have hr := (parseChars_eq_iff hs).1 hp
      exact h.clean.not_layerless (hr.eq_named rfl).2

/-! ## Spelling what was read -/

theorem endsInLayer_brackets {extent : Option String} (he : ∀ e ∈ extent, Bracketless e.toList)
    (cs : List Char) : EndsInLayer (cs ++ brackets extent) := by
  refine .extent cs ?_
  cases extent with
  | none => exact fun c hc => nomatch hc
  | some e => exact he e rfl

theorem EndsInLayer.spell (h : EndsInLayer cs) (hs : Readable s) :
    EndsInLayer (spell s cs) := by
  induction s generalizing cs with
  | array s extent ih => exact ih (endsInLayer_brackets hs.2 cs) hs.1
  | named | pointer | lValueRef | rValueRef | verbatim =>
      rw [spell_eq_append (by simp)]
      exact h.append _

theorem attach_eq (mark cs : List Char) : ∃ ds, attach mark cs = ds ++ mark := by
  unfold attach
  split
  · exact ⟨cs, rfl⟩
  · exact ⟨cs, rfl⟩
  · exact ⟨cs ++ [' '], by rw [List.append_assoc, List.singleton_append]⟩

/-- The spelling of a shape with a layer ends in one. -/
theorem endsInLayer_spell (h : Readable s) (hi : s.inner? = some s') :
    EndsInLayer (spell s []) := by
  have hmark : ∀ {mark : List Char} (cs : List Char), EndsInLayer mark →
      EndsInLayer (attach mark cs ++ []) := by
    intro mark cs hm
    obtain ⟨ds, hds⟩ := attach_eq mark cs
    rw [List.append_nil, hds]
    exact hm.append ds
  cases s with
  | named | verbatim => exact nomatch hi
  | pointer s c =>
      refine hmark _ ?_
      cases c with
      | false => exact .mark [] (.inl rfl)
      | true => exact .constPointer []
  | lValueRef s => exact hmark _ (.mark [] (.inr rfl))
  | rValueRef s => exact hmark _ (.mark ['&'] (.inr rfl))
  | array s extent => exact (endsInLayer_brackets h.2 []).spell h.1

/-- A readable shape that is spelled like a name is that name. -/
theorem eq_of_parse_render (h : Readable s) (hp : parse s.render = named name isConst) :
    s = named name isConst := by
  rw [parse_render_eq] at hp
  cases hi : s.inner? with
  | some t => exact absurd hp (endsInLayer_spell h hi).parseChars_ne
  | none =>
      cases s with
      | pointer | lValueRef | rValueRef | array => cases hi
      | verbatim text =>
          rw [spell, List.append_nil, parseChars_of_stray h] at hp
          cases hp
      | named n c =>
          have htext : spell (named n c) [] = nameText n c := List.append_nil _
          rw [htext] at hp
          cases hs : hasStrayParen (clean (nameText n c)) with
          | true =>
              rw [parseChars_of_stray hs] at hp
              cases hp
          | false =>
              have hr := (parseChars_eq_iff hs).1 hp
              rw [← (hr.eq_named rfl).1, List.reverse_reverse, IsCore.readNamed_clean h c]

end DeclAtlas.Shape
