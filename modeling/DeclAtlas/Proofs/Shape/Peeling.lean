import DeclAtlas.Proofs.Shape.RoundTrip

/-!
# Layers taken off again

If the spelling of a shape is read as that shape, then without its last layer it is read as
the shape inside: each layer is read in one way, whatever stands below it. So a shape around a
name is read back only if the name is. A name that ends in a star is not, since the star is
read as a layer.

## Main results

* `Reads.core`: a shape that is read back has a core that is read back.
* `parse_render_ne`: a shape whose core ends in a star is not read back.
-/

namespace DeclAtlas.Shape

open Text

variable {cs mark : List Char} {es : List (List Char)} {s t : Shape} {name : String}

private theorem eq_of_row_eq
    (h : es.foldr (fun e s => array s (extentOf e)) s =
      es.foldr (fun e s => array s (extentOf e)) t) : s = t := by
  induction es with
  | nil => exact h
  | cons e es ih => exact ih (Shape.array.inj h).1

theorem Reads.of_row (hn : takeExtent? cs = none) (he : ∀ e ∈ es, IsExtent e)
    (h : Reads ((rowText es).reverse ++ cs) (es.foldr (fun e s => array s (extentOf e)) s)) :
    Reads cs s := by
  obtain ⟨r, hr⟩ := exists_reads cs
  rwa [← eq_of_row_eq ((hr.row_append hn he).unique h)]

/-- What is read behind the gap before a mark is read from the spelling. -/
theorem Reads.of_beforeMark (h : Reads (beforeMark s) t) : Reads (spell s []).reverse t := by
  obtain ⟨r, hr⟩ := exists_reads (spell s []).reverse
  have hgap := hr.gap (spell s [])
  rw [← List.reverse_append] at hgap
  rwa [← hgap.unique h]

theorem takeExtent_attach (hm : mark ∈ marks) (s : Shape) :
    takeExtent? (attach mark (spell s [])).reverse = none := by
  rw [reverse_attach]
  simp only [marks, List.mem_cons, List.not_mem_nil, or_false] at hm
  rcases hm with rfl | rfl | rfl | rfl <;> exact takeExtent_none_of_head (by decide) _

theorem Reads.of_attach (hm : mark ∈ marks) (he : ∀ e ∈ es, IsExtent e)
    (h : Reads (attach mark (spell s []) ++ rowText es).reverse
      (es.foldr (fun e s => Shape.array s (extentOf e)) t)) :
    Reads (mark.reverse ++ beforeMark s) t := by
  rw [List.reverse_append] at h
  rw [← reverse_attach]
  exact h.of_row (takeExtent_attach hm s) he

/-- What is read below a mark, if what is read with the mark is known. -/
theorem Reads.of_mark (mark : List Char) (layer : Shape → Shape)
    (hlayer : ∀ r, layer r = layer s → r = s)
    (hmark : ∀ r, Reads (beforeMark s) r → Reads (mark.reverse ++ beforeMark s) (layer r))
    (h : Reads (mark.reverse ++ beforeMark s) (layer s)) : Reads (spell s []).reverse s := by
  obtain ⟨r, hr⟩ := exists_reads (beforeMark s)
  obtain rfl := hlayer r ((hmark r hr).unique h)
  exact hr.of_beforeMark

theorem Reads.head_of_lValueRef (h : Reads ('&' :: cs) (Shape.lValueRef s)) :
    cs.head? ≠ some '&' := by
  intro hamp
  obtain ⟨tail, rfl⟩ := List.head?_eq_some_iff.1 hamp
  obtain ⟨r, hr⟩ := exists_reads tail
  exact nomatch hr.rValueRef.unique h

/-- A shape that is read from its own spelling has a core that is read from its own. -/
theorem Reads.core (h : Spellable s) (hn : s.named? = some name)
    (hend : ∀ c, takeExtent? (nameText name c).reverse = none) (he : ∀ e ∈ es, IsExtent e)
    (hr : Reads (spell s (rowText es)).reverse
      (es.foldr (fun e s => Shape.array s (extentOf e)) s)) :
    ∃ c, Reads (nameText name c).reverse (named name c) := by
  have hnil : ∀ e ∈ ([] : List (List Char)), IsExtent e := by simp
  induction s generalizing es with
  | verbatim text => exact nomatch hn
  | named n c =>
      obtain rfl := Option.some.inj hn
      rw [spell, ← nameText, List.reverse_append] at hr
      exact ⟨c, hr.of_row (hend c) he⟩
  | array s extent ih =>
      refine ih h.1 hn (forall_mem_concat he h.2.2) ?_
      rw [← rowText_concat_brackets, List.foldr_append, List.foldr_cons, List.foldr_nil,
        extentOf_eq h.2.1 h.2.2]
      exact hr
  | pointer s c ih =>
      have hm : (if c then "*const".toList else ['*']) ∈ marks := by cases c <;> simp [marks]
      have hlayer : ∀ r, Shape.pointer r c = Shape.pointer s c → r = s :=
        fun r h => (Shape.pointer.inj h).1
      refine ih h hn hnil (Reads.of_mark _ (Shape.pointer · c) hlayer (fun r hinner => ?_)
        (hr.of_attach hm he))
      cases c with
      | false => exact .pointer hinner
      | true =>
          have hp : takeConstPointer? ("*const".toList.reverse ++ beforeMark s) =
              some (beforeMark s) := rfl
          exact .constPointer hp hinner
  | rValueRef s ih =>
      have hm : "&&".toList ∈ marks := by simp [marks]
      have hlayer : ∀ r, Shape.rValueRef r = Shape.rValueRef s → r = s :=
        fun r h => Shape.rValueRef.inj h
      exact ih h hn hnil (Reads.of_mark "&&".toList Shape.rValueRef hlayer
        (fun r hinner => .rValueRef hinner) (hr.of_attach hm he))
  | lValueRef s ih =>
      have hm : "&".toList ∈ marks := by simp [marks]
      have hlayer : ∀ r, Shape.lValueRef r = Shape.lValueRef s → r = s :=
        fun r h => Shape.lValueRef.inj h
      have hlast := hr.of_attach hm he
      exact ih h hn hnil (Reads.of_mark "&".toList Shape.lValueRef hlayer
        (fun r hinner => .lValueRef hlast.head_of_lValueRef hinner) hlast)

/-- A name that ends in a star is not read back, whatever layers lie around it. -/
theorem parse_render_ne (h : Spellable s) (hn : s.named? = some name)
    (hend : "*".toList <:+ name.toList ∨ "*const".toList <:+ name.toList) :
    parse s.render ≠ s := by
  have hlayer : EndsInLayer name.toList := by
    rcases hend with ⟨cs, hcs⟩ | ⟨cs, hcs⟩ <;> rw [← hcs]
    · exact .mark cs (.inl rfl)
    · exact .constPointer cs
  have htake : ∀ c, takeExtent? (nameText name c).reverse = none := by
    intro c
    rcases hend with ⟨cs, hcs⟩ | ⟨cs, hcs⟩ <;>
      rw [nameText, ← hcs, ← List.append_assoc, List.reverse_append] <;>
      exact takeExtent_none_of_head (by decide) _
  intro hp
  have hsolid : Solid (spell s (rowText [])) := solid_spell h (by simp)
  have hclean : clean (spell s []) = spell s [] := clean_of_isClean hsolid.clean
  have hparen : hasStrayParen (spell s (rowText [])) = s.named?.isNone :=
    hasStrayParen_spell h (by simp)
  rw [hn] at hparen
  rw [parse_render_eq] at hp
  have hr := (parseChars_eq_iff (by rw [hclean]; exact hparen)).1 hp
  rw [hclean] at hr
  have hnil : ∀ e ∈ ([] : List (List Char)), IsExtent e := by simp
  obtain ⟨c, hcore⟩ := Reads.core h hn htake hnil hr
  exact (hlayer.append _).not_layerless (hcore.eq_named rfl).2

end DeclAtlas.Shape
