import DeclAtlas.Proofs.Shape.Legible

/-!
# Reading the spelling of a shape

The spelling of a legible shape is read back as that shape, with two exceptions. An `&`
written directly after another one makes `&&` with it, so what is read where lvalue references
lie over references is the shape with the marks taken two by two from the end
(`collapse`). And what is not taken apart stays so with all that is written around it.

The induction is on the shape. It says of a row of extents after the spelling what is read,
since arrays leave their extents to their elements, and of an `&` after the spelling, since
this is what an lvalue reference reads into the shape below it.

## Main results

* `parse_render`: what is read from the spelling of a legible shape.
* `reread_eq_self_iff`: which shapes are read back as they are.
* `eq_of_render_eq`: of these, no two have one spelling.
* `WellFormed.parse_render_inverse`: both for the shapes that can be written.
-/

namespace DeclAtlas.Shape

open Text

variable {c : Char} {cs ds rest : List Char} {es : List (List Char)} {s t : Shape}
  {name : String} {isConst : Bool}

/-! ## Marks side by side -/

/-- Is the outermost layer a reference? -/
def isReference : Shape → Bool
  | lValueRef _ | rValueRef _ => true
  | _ => false

/-- What is read with one more `&` at the end. -/
def addAmpersand : Shape → Shape
  | rValueRef s => rValueRef s.addAmpersand
  | lValueRef s => rValueRef s
  | s => lValueRef s

/-- The shape with the `&` of references that lie on each other taken two by two. -/
def collapse : Shape → Shape
  | lValueRef s => s.collapse.addAmpersand
  | rValueRef s => rValueRef s.collapse
  | pointer s c => pointer s.collapse c
  | array s e => array s.collapse e
  | s => s

/-- No lvalue reference lies directly over a reference. -/
def Collapsed : Shape → Prop
  | lValueRef s => s.isReference = false ∧ s.Collapsed
  | rValueRef s | pointer s _ | array s _ => s.Collapsed
  | named .. | verbatim _ => True

instance decidableCollapsed : (s : Shape) → Decidable s.Collapsed
  | named .. | verbatim _ => inferInstanceAs (Decidable True)
  | rValueRef s | pointer s _ | array s _ => decidableCollapsed s
  | lValueRef s =>
    have := decidableCollapsed s
    inferInstanceAs (Decidable (s.isReference = false ∧ s.Collapsed))

theorem isReference_mapNamed {f : String → Bool → Shape}
    (hf : ∀ n c, (f n c).isReference = false) (s : Shape) :
    (s.mapNamed f).isReference = s.isReference := by
  cases s with
  | named n c => exact hf n c
  | pointer | lValueRef | rValueRef | array | verbatim => rfl

/-- A core that becomes no reference changes nothing of the layers. -/
theorem Collapsed.mapNamed {f : String → Bool → Shape} (h : s.Collapsed)
    (hf : ∀ n c, (f n c).Collapsed ∧ (f n c).isReference = false) :
    (s.mapNamed f).Collapsed := by
  induction s with
  | named n c => exact (hf n c).1
  | verbatim => exact h
  | pointer s c ih => exact ih h
  | rValueRef s ih => exact ih h
  | array s e ih => exact ih h
  | lValueRef s ih =>
      exact ⟨(isReference_mapNamed (fun n c => (hf n c).2) s).trans h.1, ih h.2⟩

theorem addAmpersand_of_not_reference (h : s.isReference = false) :
    s.addAmpersand = lValueRef s := by
  cases s with
  | lValueRef | rValueRef => exact nomatch h
  | named | pointer | array | verbatim => rfl

theorem Collapsed.addAmpersand (h : s.Collapsed) : s.addAmpersand.Collapsed := by
  induction s with
  | rValueRef s ih => exact ih h
  | lValueRef s => exact h.2
  | named | pointer | array | verbatim => exact ⟨rfl, h⟩

theorem collapsed_collapse (s : Shape) : s.collapse.Collapsed := by
  induction s with
  | named | verbatim => trivial
  | pointer s c ih => exact ih
  | rValueRef s ih => exact ih
  | array s e ih => exact ih
  | lValueRef s ih => exact ih.addAmpersand

theorem Collapsed.collapse_eq (h : s.Collapsed) : s.collapse = s := by
  induction s with
  | named | verbatim => rfl
  | pointer s c ih => rw [collapse, ih h]
  | rValueRef s ih => rw [collapse, ih h]
  | array s e ih => rw [collapse, ih h]
  | lValueRef s ih => rw [collapse, ih h.2, addAmpersand_of_not_reference h.1]

/-- Two more `&` are one rvalue reference. -/
theorem Collapsed.addAmpersand_twice (h : s.Collapsed) :
    s.addAmpersand.addAmpersand = rValueRef s := by
  induction s with
  | rValueRef s ih => rw [Shape.addAmpersand, Shape.addAmpersand, ih h]
  | lValueRef s =>
      rw [Shape.addAmpersand, Shape.addAmpersand, addAmpersand_of_not_reference h.1]
  | named | pointer | array | verbatim => rfl

theorem dimensions_addAmpersand_le (s : Shape) :
    s.addAmpersand.dimensions ≤ s.dimensions + 1 := by
  induction s with
  | rValueRef s ih => exact Nat.succ_le_succ ih
  | lValueRef s => exact Nat.le_succ _
  | named | pointer | array | verbatim => exact Nat.le_refl _

theorem dimensions_collapse_le (s : Shape) : s.collapse.dimensions ≤ s.dimensions := by
  induction s with
  | named | verbatim => exact Nat.le_refl _
  | pointer s c ih => exact Nat.succ_le_succ ih
  | rValueRef s ih => exact Nat.succ_le_succ ih
  | array s e ih => exact Nat.succ_le_succ ih
  | lValueRef s ih =>
      exact (dimensions_addAmpersand_le s.collapse).trans (Nat.succ_le_succ ih)

theorem named?_addAmpersand (s : Shape) : s.addAmpersand.named? = s.named? := by
  induction s with
  | rValueRef s ih => exact ih
  | named | pointer | lValueRef | array | verbatim => rfl

theorem named?_collapse (s : Shape) : s.collapse.named? = s.named? := by
  induction s with
  | named | verbatim => rfl
  | pointer s c ih => exact ih
  | rValueRef s ih => exact ih
  | array s e ih => exact ih
  | lValueRef s ih => exact (named?_addAmpersand _).trans ih

theorem Legible.addAmpersand (h : Legible s) : Legible s.addAmpersand := by
  induction s with
  | rValueRef s ih => exact ih h
  | named | pointer | lValueRef | array | verbatim => exact h

theorem Legible.collapse (h : Legible s) : Legible s.collapse := by
  induction s with
  | named | verbatim => exact h
  | pointer s c ih => exact ih h
  | rValueRef s ih => exact ih h
  | array s e ih => exact ⟨ih h.1, h.2⟩
  | lValueRef s ih => exact (ih h).addAmpersand

/-! ## Names are read -/

theorem exists_of_takeConstPointer (h : takeConstPointer? cs = some rest) :
    ∃ blanks, (∀ c ∈ blanks, isBlank c = true) ∧
      cs = "tsnoc".toList ++ (blanks ++ '*' :: rest) := by
  unfold takeConstPointer? at h
  split at h
  · rename_i tail
    split at h
    · rename_i rest' htrim
      obtain rfl := Option.some.inj h
      refine ⟨tail.takeWhile isBlank, fun c hc => List.mem_takeWhile_imp hc, ?_⟩
      rw [← htrim, trimStart, List.takeWhile_append_dropWhile]
      rfl
    · cases h
  · cases h

/-- A name does not get a `*const` at its end from what a blank sets apart before it. -/
theorem IsName.not_constSuffix (h : IsName name) (hb : ∀ c ∈ cs.getLast?, isBlank c = true) :
    ¬"*const".toList <:+ cs ++ name.toList := by
  rintro ⟨p, heq⟩
  rcases List.append_eq_append_iff.1 heq with ⟨u, hu, hv⟩ | ⟨u, hu, hv⟩
  · rcases List.eq_nil_or_concat u with rfl | ⟨u, d, rfl⟩
    · exact h.unconst ⟨[], by simpa using hv⟩
    · have hblank : isBlank d = true := hb d (by rw [hu]; simp)
      have hmem : d ∈ "*const".toList := by
        rw [hv]
        simp
      have hall : ∀ d ∈ "*const".toList, isBlank d = false := by decide
      exact absurd (hblank.symm.trans (hall d hmem)) (by decide)
  · exact h.unconst ⟨u, hv.symm⟩

/-- The last word of a name is not `const`, whatever is set apart before it. -/
theorem IsName.words_ne_concat_const (h : IsName name)
    (hb : ∀ c ∈ cs.getLast?, isBlank c = true) (ws : List (List Char)) :
    words (cs ++ name.toList) ≠ ws ++ ["const".toList] := by
  intro hwords
  rw [words_append_of_last hb] at hwords
  obtain ⟨vs, v, hvs⟩ := (List.eq_nil_or_concat (words name.toList)).resolve_left h.ne
  have hlast := congrArg List.getLast? hwords
  rw [hvs, List.concat_eq_append, ← List.append_assoc, List.getLast?_concat,
    List.getLast?_concat] at hlast
  have hmem : "const".toList ∈ words name.toList := by
    rw [hvs, Option.some.inj hlast]
    simp
  exact h.unqualified _ hmem (Or.inl rfl)

theorem IsName.not_takeConstPointer (h : IsName name)
    (hb : ∀ c ∈ cs.getLast?, isBlank c = true) :
    takeConstPointer? (cs ++ name.toList).reverse = none := by
  cases hp : takeConstPointer? (cs ++ name.toList).reverse with
  | none => rfl
  | some rest =>
      obtain ⟨blanks, hbl, heq⟩ := exists_of_takeConstPointer hp
      have htext : cs ++ name.toList =
          (rest.reverse ++ ['*']) ++ (blanks.reverse ++ "const".toList) := by
        rw [← List.reverse_reverse (cs ++ name.toList), heq]
        simp
      rcases List.eq_nil_or_concat blanks.reverse with hnil | ⟨blanks', b, hblanks⟩
      · refine absurd ⟨rest.reverse, ?_⟩ (h.not_constSuffix hb)
        rw [htext, hnil]
        simp
      · have hblank : isBlank b = true := hbl b (by
          rw [← List.mem_reverse, hblanks]
          simp)
        have hconst : IsWord "const".toList := ⟨by decide, by simp; decide⟩
        have hwords : words (cs ++ name.toList) =
            words (rest.reverse ++ ['*'] ++ blanks') ++ ["const".toList] := by
          rw [htext, hblanks, ← words_word hconst, ← words_append_blank hblank]
          simp
        exact absurd hwords (h.words_ne_concat_const hb _)

/-- No layer ends a name, whatever is set apart before it. -/
theorem IsName.layerless (h : IsName name) (hb : ∀ c ∈ cs.getLast?, isBlank c = true) :
    Layerless (cs ++ name.toList).reverse := by
  have hlast : ∀ c ∈ (cs ++ name.toList).getLast?, some c = name.toList.getLast? := by
    intro c hc
    rw [List.getLast?_append, List.getLast?_eq_some_getLast h.solid.ne] at hc
    rw [List.getLast?_eq_some_getLast h.solid.ne]
    exact hc.symm
  have hmark : ∀ c ∈ (cs ++ name.toList).getLast?, c ≠ '*' ∧ c ≠ '&' ∧ c ≠ ']' := by
    intro c hc
    have hun := h.unmarked
    rw [← hlast c hc] at hun
    simpa using hun
  refine ⟨?_, ?_, h.not_takeConstPointer hb⟩
  · intro c hc
    rw [List.head?_reverse] at hc
    obtain ⟨hstar, hamp, -⟩ := hmark c hc
    exact ⟨h.solid.clean.trimmed.2 c (hlast c hc).symm, hamp, hstar⟩
  · obtain ⟨ds, c, hds⟩ :=
      (List.eq_nil_or_concat (cs ++ name.toList)).resolve_left (by simp [h.solid.ne])
    rw [hds, List.concat_eq_append, List.reverse_append]
    refine takeExtent_none_of_head ?_ ds.reverse
    exact (hmark c (by rw [hds]; simp)).2.2

theorem IsName.layerless_nameText (h : IsName name) (isConst : Bool) :
    Layerless (nameText name isConst).reverse := by
  refine h.layerless ?_
  cases isConst with
  | false => exact fun c hc => nomatch hc
  | true =>
      rintro c ⟨⟩
      decide

theorem reads_nameText (h : IsName name) (isConst : Bool) :
    Reads (nameText name isConst).reverse (named name isConst) := by
  have hread : readNamed (nameText name isConst) = named name isConst := by
    have hc := h.isCore.readNamed_clean isConst
    rwa [clean_of_isClean (h.isSpelled.solid_nameText isConst).clean] at hc
  have hr := Reads.name (h.layerless_nameText isConst)
  rwa [List.reverse_reverse, hread] at hr

/-! ## Layers are read -/

theorem extentOf_eq {extent : Option String} (hne : extent ≠ some "")
    (he : IsExtent (extent.getD "").toList) : extentOf (extent.getD "").toList = extent := by
  cases extent with
  | none => rfl
  | some e =>
      have hempty : e.toList ≠ [] := fun hnil => hne (by rw [String.toList_eq_nil_iff.1 hnil])
      have htrim : trimChars e.toList = e.toList :=
        IsTrimmed.trimChars_eq (IsClean.trimmed (show IsClean e.toList from he.clean))
      rw [extentOf, Option.getD_some, htrim]
      simp [hempty]

/-- What is read with a row of extents at the end. -/
theorem Reads.row_append (h : Reads cs s) (hn : takeExtent? cs = none)
    (he : ∀ e ∈ es, IsExtent e) :
    Reads ((rowText es).reverse ++ cs) (es.foldr (fun e s => array s (extentOf e)) s) := by
  cases es with
  | nil => simpa [rowText] using h
  | cons e es => exact .row (List.cons_ne_nil e es) (fun e' he' => (he e' he').bracketless) hn h

theorem Reads.gap (h : Reads ds s) (cs : List Char) : Reads ((gap cs).reverse ++ ds) s := by
  rcases gap_eq cs with hg | hg <;> rw [hg]
  · exact h
  · exact .blank (by decide) h

/-- The spelling of a shape, read from its end where a mark is to follow. -/
def beforeMark (s : Shape) : List Char := (spell s [] ++ gap (spell s [])).reverse

theorem reverse_attach (mark : List Char) (s : Shape) :
    (attach mark (spell s [])).reverse = mark.reverse ++ beforeMark s := by
  rw [attach_eq_gap, List.reverse_append, beforeMark]

theorem gap_of_mark {mark : List Char}
    (hm : mark.getLast? = some '*' ∨ mark.getLast? = some '&') : gap (cs ++ mark) = [] := by
  have hlast : (cs ++ mark).getLast? = mark.getLast? := by
    rcases hm with hm | hm <;> rw [List.getLast?_append, hm] <;> rfl
  unfold Shape.gap
  rcases hm with hm | hm <;> simp only [hlast, hm]

/-- What is read from the spelling of `s` is `t`, also with extents or with an `&` after
it. -/
structure ReadsBack (s t : Shape) : Prop where
  row : ∀ es, (∀ e ∈ es, IsExtent e) →
    Reads (spell s (rowText es)).reverse (es.foldr (fun e s => array s (extentOf e)) t)
  mark : Reads (beforeMark s) t
  ampersand : Reads ('&' :: beforeMark s) t.addAmpersand

/-- Outside an array it is enough to know what is read from the spelling itself. -/
theorem ReadsBack.of_reads (hs : ∀ t e, s ≠ array t e) (hr : Reads (spell s []).reverse t)
    (hn : takeExtent? (spell s []).reverse = none)
    (hamp : Reads ('&' :: beforeMark s) t.addAmpersand) : ReadsBack s t := by
  refine ⟨fun es he => ?_, ?_, hamp⟩
  · rw [spell_eq_append hs, List.reverse_append]
    exact hr.row_append hn he
  · rw [beforeMark, List.reverse_append]
    exact hr.gap _

/-- An `&` after what ends in none is an lvalue reference. -/
theorem Reads.lValueRef_of_head (h : Reads cs s) (hs : s.isReference = false)
    (hn : cs.head? ≠ some '&') : Reads ('&' :: cs) s.addAmpersand := by
  rw [addAmpersand_of_not_reference hs]
  exact .lValueRef hn h

theorem head_beforeMark (h : ∀ c ∈ (spell s []).getLast?, c ≠ '&') :
    (beforeMark s).head? ≠ some '&' := by
  rw [beforeMark, List.reverse_append]
  rcases gap_eq (spell s []) with hg | hg <;> rw [hg]
  · rw [List.reverse_nil, List.nil_append, List.head?_reverse]
    exact fun hamp => h '&' hamp rfl
  · exact by simp

theorem readsBack_named (h : IsName name) (isConst : Bool) :
    ReadsBack (named name isConst) (named name isConst) := by
  have htext : spell (named name isConst) [] = nameText name isConst := List.append_nil _
  have hl := h.layerless_nameText isConst
  have hr : Reads (spell (named name isConst) []).reverse (named name isConst) := by
    rw [htext]
    exact reads_nameText h isConst
  have hlast : ∀ c ∈ (spell (named name isConst) []).getLast?, c ≠ '&' := by
    rw [htext]
    intro c hc
    exact (hl.head c (by rwa [List.head?_reverse])).2.1
  refine .of_reads (by simp) hr (by rw [htext]; exact hl.extent) ?_
  refine Reads.lValueRef_of_head ?_ rfl (head_beforeMark hlast)
  rw [beforeMark, List.reverse_append]
  exact hr.gap _

/-- The spelling of a layer that adds a mark. -/
theorem beforeMark_of_attach {mark : List Char} {s' : Shape}
    (hs : spell s' [] = attach mark (spell s []))
    (hm : mark.getLast? = some '*' ∨ mark.getLast? = some '&') :
    beforeMark s' = mark.reverse ++ beforeMark s := by
  rw [beforeMark, hs, attach_eq_gap, gap_of_mark hm, List.append_nil, List.reverse_append,
    beforeMark]

theorem ReadsBack.pointer (h : ReadsBack s t) (isConst : Bool) :
    ReadsBack (pointer s isConst) (pointer t isConst) := by
  have hrev : (spell (Shape.pointer s isConst) []).reverse =
      (if isConst then "*const".toList else ['*']).reverse ++ beforeMark s := by
    rw [spell, List.append_nil, reverse_attach]
  have hr : Reads (spell (Shape.pointer s isConst) []).reverse (Shape.pointer t isConst) := by
    rw [hrev]
    cases isConst with
    | false => exact .pointer h.mark
    | true =>
        have hp : takeConstPointer? ("*const".toList.reverse ++ beforeMark s) =
            some (beforeMark s) := rfl
        exact .constPointer hp h.mark
  have hlast : ∀ c ∈ (spell (Shape.pointer s isConst) []).getLast?, c ≠ '&' := by
    rw [← List.head?_reverse, hrev]
    cases isConst <;> rintro c ⟨⟩ <;> decide
  refine .of_reads (by simp) hr ?_ ?_
  · rw [hrev]
    cases isConst <;> exact takeExtent_none_of_head (by decide) _
  · refine Reads.lValueRef_of_head ?_ rfl (head_beforeMark hlast)
    rw [beforeMark, List.reverse_append]
    exact hr.gap _

theorem ReadsBack.rValueRef (h : ReadsBack s t) : ReadsBack (rValueRef s) (rValueRef t) := by
  have htext : spell (Shape.rValueRef s) [] = attach ['&', '&'] (spell s []) := by
    rw [spell, List.append_nil]
  have hbefore := beforeMark_of_attach htext (.inr rfl)
  have hr : Reads (spell (Shape.rValueRef s) []).reverse (Shape.rValueRef t) := by
    rw [htext, reverse_attach]
    exact .rValueRef h.mark
  refine .of_reads (by simp) hr ?_ ?_
  · rw [htext, reverse_attach]
    exact takeExtent_none_of_head (by decide) _
  · rw [hbefore]
    exact .rValueRef h.ampersand

/-- An lvalue reference is read into what lies below it. -/
theorem ReadsBack.lValueRef (h : ReadsBack s t) (ht : t.Collapsed) :
    ReadsBack (lValueRef s) t.addAmpersand := by
  have htext : spell (Shape.lValueRef s) [] = attach ['&'] (spell s []) := by
    rw [spell, List.append_nil]
  have hbefore := beforeMark_of_attach htext (.inr rfl)
  have hr : Reads (spell (Shape.lValueRef s) []).reverse t.addAmpersand := by
    rw [htext, reverse_attach]
    exact h.ampersand
  refine .of_reads (by simp) hr ?_ ?_
  · rw [htext, reverse_attach]
    exact takeExtent_none_of_head (by decide) _
  · rw [hbefore, ht.addAmpersand_twice]
    exact .rValueRef h.mark

theorem getLast?_brackets (cs : List Char) (extent : Option String) :
    (cs ++ brackets extent).getLast? = some ']' := by
  rw [brackets, ← List.append_assoc, List.getLast?_concat]

theorem getLast?_spell (s : Shape) (h : cs.getLast? = some ']') :
    (spell s cs).getLast? = some ']' := by
  induction s generalizing cs with
  | array s extent ih =>
      rw [spell]
      exact ih (getLast?_brackets cs extent)
  | named | pointer | lValueRef | rValueRef | verbatim =>
      rw [spell_eq_append (by simp), List.getLast?_append, h]
      rfl

/-- An array reads its extent as the last one of a row after its elements. -/
theorem ReadsBack.array (h : ReadsBack s t) {extent : Option String} (hne : extent ≠ some "")
    (he : IsExtent (extent.getD "").toList) : ReadsBack (array s extent) (array t extent) := by
  have hrow : ∀ es, (∀ e ∈ es, IsExtent e) →
      Reads (spell (Shape.array s extent) (rowText es)).reverse
        (es.foldr (fun e s => Shape.array s (extentOf e)) (Shape.array t extent)) := by
    intro es hes
    have hr := h.row (es ++ [(extent.getD "").toList]) (forall_mem_concat hes he)
    rwa [← rowText_concat_brackets, List.foldr_append, List.foldr_cons, List.foldr_nil,
      extentOf_eq hne he] at hr
  have hr : Reads (spell (Shape.array s extent) []).reverse (Shape.array t extent) :=
    hrow [] (by simp)
  have hmark : Reads (beforeMark (Shape.array s extent)) (Shape.array t extent) := by
    rw [beforeMark, List.reverse_append]
    exact hr.gap _
  refine ⟨hrow, hmark, hmark.lValueRef_of_head rfl (head_beforeMark ?_)⟩
  rw [spell, getLast?_spell s (getLast?_brackets [] extent)]
  rintro c ⟨⟩
  decide

/-- The spelling of a legible shape around a name is read as its collapsed form. -/
theorem readsBack (h : Legible s) (hn : s.named?.isSome = true) : ReadsBack s s.collapse := by
  induction s with
  | named name c => exact readsBack_named h c
  | pointer s c ih => exact (ih h hn).pointer c
  | rValueRef s ih => exact (ih h hn).rValueRef
  | lValueRef s ih => exact (ih h hn).lValueRef (collapsed_collapse s)
  | array s extent ih => exact (ih h.1 hn).array h.2.1 h.2.2
  | verbatim text => exact nomatch hn

/-! ## Round trips -/

/-- What is read from the spelling of a shape. -/
def reread (s : Shape) : Shape := if s.named?.isSome then s.collapse else verbatim s.render

/-- A shape that is read back: its layers lie around a name, and no lvalue reference among
them directly over a reference. -/
structure Faithful (s : Shape) : Prop where
  collapsed : s.Collapsed
  named : s.named? = none → s.inner? = none

instance (s : Shape) : Decidable s.Faithful :=
  decidable_of_iff (s.Collapsed ∧ (s.named? = none → s.inner? = none))
    ⟨fun ⟨h₁, h₂⟩ => ⟨h₁, h₂⟩, fun h => ⟨h.1, h.2⟩⟩

/-- The spelling of a legible shape is read as `reread` says. -/
theorem parse_render (h : Legible s) : parse s.render = s.reread := by
  have hsolid : Solid (spell s (rowText [])) := solid_spell h.spellable (by simp)
  have hclean : clean (spell s []) = spell s [] := clean_of_isClean hsolid.clean
  have hparen : hasStrayParen (spell s (rowText [])) = s.named?.isNone :=
    hasStrayParen_spell h.spellable (by simp)
  rw [parse_render_eq, reread]
  cases hn : s.named? with
  | some name =>
      rw [hn] at hparen
      have hr := (readsBack h (by rw [hn]; rfl)).row [] (by simp)
      refine (parseChars_eq_iff (by rw [hclean]; exact hparen)).2 ?_
      rw [hclean]
      exact hr
  | none =>
      rw [hn] at hparen
      rw [parseChars_of_stray (by rw [hclean]; exact hparen), hclean]
      rfl

theorem reread_eq_self_iff : s.reread = s ↔ s.Faithful := by
  unfold reread
  constructor
  · intro h
    split at h
    · rename_i hn
      exact ⟨h ▸ collapsed_collapse s, fun hnone => by rw [hnone] at hn; exact nomatch hn⟩
    · rw [← h]
      exact ⟨trivial, fun _ => rfl⟩
  · rintro ⟨hc, hn⟩
    split
    · exact hc.collapse_eq
    · rename_i hnone
      have hi := hn (by simpa using hnone)
      cases s with
      | named => exact absurd rfl hnone
      | verbatim text => rw [render_verbatim]
      | pointer | lValueRef | rValueRef | array => exact nomatch hi

/-- A spelling is stable if its canonical form reads like itself. -/
def Stable (spelling : String) : Prop := parse (parse spelling).render = parse spelling

instance (spelling : String) : Decidable (Stable spelling) :=
  inferInstanceAs (Decidable (_ = _))

theorem Stable.faithful {spelling : String} (hs : Stable spelling)
    (h : Legible (parse spelling)) : (parse spelling).Faithful := by
  rw [Stable, parse_render h] at hs
  exact reread_eq_self_iff.1 hs

/-- A faithful shape is read back from its spelling. -/
theorem parse_render_of_faithful (h : Legible s) (hf : s.Faithful) : parse s.render = s := by
  rw [parse_render h, reread_eq_self_iff.2 hf]

/-- No two faithful shapes have one spelling. -/
theorem eq_of_render_eq (hs : Legible s) (ht : Legible t) (hfs : s.Faithful) (hft : t.Faithful)
    (h : s.render = t.render) : s = t := by
  rw [← parse_render_of_faithful hs hfs, h, parse_render_of_faithful ht hft]

/-! ## Shapes that can be written -/

/-- A shape as it can be written: layers around a name, all of whose parts are told apart in
its spelling, and among them no lvalue reference directly over a reference. -/
structure WellFormed (s : Shape) : Prop where
  legible : s.Legible
  named : s.named?.isSome = true
  collapsed : s.Collapsed

instance (s : Shape) : Decidable s.WellFormed :=
  decidable_of_iff (s.Legible ∧ s.named?.isSome = true ∧ s.Collapsed)
    ⟨fun ⟨h₁, h₂, h₃⟩ => ⟨h₁, h₂, h₃⟩, fun h => ⟨h.1, h.2, h.3⟩⟩

theorem WellFormed.faithful (h : s.WellFormed) : s.Faithful :=
  ⟨h.collapsed, fun hn => nomatch hn ▸ h.named⟩

/-- Reading undoes spelling on the shapes that can be written, so no two of them have one
spelling. -/
theorem WellFormed.parse_render_inverse (hs : s.WellFormed) (ht : t.WellFormed) :
    parse s.render = s ∧ (s.render = t.render ↔ s = t) := by
  refine ⟨parse_render_of_faithful hs.legible hs.faithful, fun h => ?_, fun h => by rw [h]⟩
  exact eq_of_render_eq hs.legible ht.legible hs.faithful ht.faithful h

/-- What the two shapes below are made around. -/
def pointedBox : Shape :=
  pointer (pointer (named "(anonymous namespace)::Box<int, 3>" true) true) false

/-- An array of references. -/
def referenceTable : Shape :=
  array (array (rValueRef (lValueRef pointedBox)) none) (some "sizeof A + 1")

/-- A reference to an array, with the same layers. -/
def tableReference : Shape :=
  lValueRef (array (array (rValueRef pointedBox) none) (some "sizeof A + 1"))

theorem parse_render_inverse_table : referenceTable.WellFormed ∧ tableReference.WellFormed ∧
    referenceTable.render =
      "const (anonymous namespace)::Box<int, 3> *const *&&&[sizeof A + 1][]" ∧
    parse referenceTable.render = referenceTable ∧
    referenceTable.render ≠ tableReference.render := by
  have hs : referenceTable.WellFormed := by decide +kernel
  have ht : tableReference.WellFormed := by decide +kernel
  have hrender : referenceTable.render =
      "const (anonymous namespace)::Box<int, 3> *const *&&&[sizeof A + 1][]" := by decide +kernel
  have hne : referenceTable ≠ tableReference := by decide
  obtain ⟨hparse, hiff⟩ := hs.parse_render_inverse ht
  exact ⟨hs, ht, hrender, hparse, fun h => hne (hiff.1 h)⟩

theorem Legible.reread (h : Legible s) : Legible s.reread := by
  unfold Shape.reread
  split
  · exact h.collapse
  · rename_i hn
    have hsolid : Solid (spell s (rowText [])) := solid_spell h.spellable (by simp)
    have hparen : hasStrayParen (spell s (rowText [])) = s.named?.isNone :=
      hasStrayParen_spell h.spellable (by simp)
    rw [Legible, toList_render]
    exact ⟨hsolid, hparen.trans (by simpa using hn)⟩

end DeclAtlas.Shape
