import DeclAtlas.Dump.Source
import DeclAtlas.Source.Script
import Mathlib.Data.List.Nodup
import Mathlib.Data.List.TakeWhile

/-!
# Reading a source to its end

A source is asked about a declaration after it was read, and it has only the declaration to
tell which one is meant. `Streams` says that it answers for the very declaration just read, at
every place, and hands out empty declarations for ever behind the last. `Delivers` looks at the
source as a survey does, which stops at the first empty declaration.

Both sources hand out the entries of a cursor. A dump looks at the current entry first, so it
answers for that one. A script looks for the first entry that equals the declaration. That is
the right one as long as every declaration has a line of its own, which ends where line numbers
do.

What a source knows of types is the same however far it has been read.

## Main results

* `streams_of_cursor`: what a source streams that hands out the entries of a cursor.
* `Streams.delivers`: a stream is delivered up to its first empty declaration.
* `Script.Recorded.location`: the place of every declaration in a script.
* `Script.streams_answers`: a script streams what it answers, however long it is.
* `Script.Recorded.streams`, `Dump.Source.streams`: what the two sources stream.
* `SteadyTypes`: the types of both are steady.
-/

universe u v

namespace DeclAtlas

open DeclarationSource

/-! ## Items -/

/-- A declaration with what is known about that very declaration. -/
structure Item where
  declaration : Declaration
  /-- The declarations it is nested in, outermost first. -/
  ancestors : List Declaration
  type : DeclaredType
  visibility : Visibility
  flags : MethodFlags
deriving DecidableEq, Inhabited

/-- What a source answers about the declaration read last. -/
def itemOf {σ : Type u} [DeclarationSource σ] (src : σ) (d : Declaration) : Item :=
  ⟨d, ancestors src, declaredType src d, visibility src d, methodFlags src d⟩

/-- The source delivers these items one after another, and then ends. -/
inductive Delivers {σ : Type u} [DeclarationSource σ] : σ → List Item → Prop where
  | done {src : σ} (hend : (next src).1.isEmpty = true) : Delivers src []
  | step {src : σ} {i : Item} {items : List Item} (hread : (next src).1.isEmpty = false)
      (hi : itemOf (next src).2 (next src).1 = i) (hr : Delivers (next src).2 items) :
      Delivers src (i :: items)

/-- A source delivers one list of items only. -/
theorem Delivers.unique {σ : Type u} [DeclarationSource σ] {src : σ} {items items' : List Item}
    (hd : Delivers src items) (hd' : Delivers src items') : items = items' := by
  induction hd generalizing items' with
  | done hend =>
      cases hd' with
      | done _ => rfl
      | step hread _ _ => exact absurd (hend.symm.trans hread) (by decide)
  | step hread hi _ ih =>
      cases hd' with
      | done hend => exact absurd (hend.symm.trans hread) (by decide)
      | step _ hi' hr' => rw [← hi, ← hi', ih hr']

/-- The source after `n` declarations more have been read. -/
def readOn {σ : Type u} [DeclarationSource σ] : Nat → σ → σ
  | 0, src => src
  | n + 1, src => readOn n (next src).2

/-- Reading yields the declarations of `items`, one after another and each answered for, and
then empty ones for ever. -/
structure Streams {σ : Type u} [DeclarationSource σ] (src : σ) (items : List Item) : Prop where
  reads : ∀ i x, items[i]? = some x →
    (next (readOn i src)).1 = x.declaration ∧ itemOf (readOn (i + 1) src) x.declaration = x
  ended : ∀ i, items.length ≤ i → (next (readOn i src)).1 = {}

namespace Streams

variable {σ : Type u} [DeclarationSource σ] {src : σ} {x : Item} {items : List Item}

theorem cons (hd : (next src).1 = x.declaration) (hx : itemOf (next src).2 x.declaration = x)
    (hr : Streams (next src).2 items) : Streams src (x :: items) := by
  constructor
  · intro i y hy
    cases i with
    | zero =>
        obtain rfl := Option.some.inj hy
        exact ⟨hd, hx⟩
    | succ i => exact hr.reads i y hy
  · intro i hi
    cases i with
    | zero => exact nomatch hi
    | succ i => exact hr.ended i (Nat.le_of_succ_le_succ hi)

theorem tail (hs : Streams src (x :: items)) : Streams (next src).2 items where
  reads i y hy := hs.reads (i + 1) y hy
  ended i hi := hs.ended (i + 1) (Nat.succ_le_succ hi)

/-- An empty declaration ends a stream for those who read it, wherever it stands. -/
theorem delivers_takeWhile (hs : Streams src items) :
    Delivers src (items.takeWhile fun i => !i.declaration.isEmpty) := by
  induction items generalizing src with
  | nil =>
      apply Delivers.done
      rw [show (next src).1 = {} from hs.ended 0 (Nat.le_refl 0)]
      rfl
  | cons x items ih =>
      have hd : (next src).1 = x.declaration := (hs.reads 0 x rfl).1
      have hx : itemOf (next src).2 x.declaration = x := (hs.reads 0 x rfl).2
      cases he : x.declaration.isEmpty with
      | true =>
          rw [List.takeWhile_cons_of_neg (by simp [he])]
          exact .done (by rw [hd, he])
      | false =>
          rw [List.takeWhile_cons_of_pos (by simp [he])]
          exact .step (by rw [hd, he]) (by rw [hd, hx]) (ih hs.tail)

/-- Without empty declarations all of a stream is delivered. -/
theorem delivers (hs : Streams src items)
    (hne : ∀ i ∈ items, i.declaration.isEmpty = false) : Delivers src items := by
  have hall : items.takeWhile (fun i => !i.declaration.isEmpty) = items :=
    List.takeWhile_eq_self_iff.2 fun i hi => by rw [hne i hi, Bool.not_false]
  rw [← hall]
  exact hs.delivers_takeWhile

end Streams

/-- Sources that know the same of types however far they have been read. -/
class SteadyTypes (σ : Type u) [DeclarationSource σ] : Prop where
  typeDeclaration_next : ∀ src : σ, typeDeclaration (next src).2 = typeDeclaration src
  stripAlias_next : ∀ src : σ, stripAlias (next src).2 = stripAlias src
  element_next : ∀ src : σ, element (next src).2 = element src
  isConst_next : ∀ src : σ, isConst (next src).2 = isConst src

/-! ## Cursors -/

namespace Cursor

variable {ε : Type u} {c : Cursor ε} {e : ε} {rest : List ε}

/-- The entries that are still to be read. -/
def upcoming (c : Cursor ε) : List ε := c.toList.drop c.position

theorem toList_next (c : Cursor ε) : c.next.2.toList = c.toList := by
  unfold toList
  rw [entries_next]

theorem next_of_upcoming_nil (h : c.upcoming = []) :
    c.next.1 = none ∧ c.next.2.upcoming = [] := by
  have hle : c.size ≤ c.position := by
    simpa [upcoming, toList, size] using h
  rw [next_of_le hle]
  exact ⟨rfl, h⟩

theorem next_of_upcoming_cons (h : c.upcoming = e :: rest) :
    c.next.1 = some e ∧ c.next.2.upcoming = rest := by
  have hget : c.entries[c.position]? = some e := by
    have hhead : (c.upcoming)[0]? = some e := by rw [h]; rfl
    simpa [upcoming, toList] using hhead
  rw [next_of_some hget]
  refine ⟨rfl, ?_⟩
  change c.toList.drop (c.position + 1) = rest
  rw [← List.drop_drop]
  change c.upcoming.drop 1 = rest
  rw [h]
  rfl

/-- Reading an entry leaves less to be read. -/
theorem length_upcoming_next (h : c.next.1 = some e) :
    c.next.2.upcoming.length < c.upcoming.length := by
  cases hu : c.upcoming with
  | nil => rw [(next_of_upcoming_nil hu).1] at h; cases h
  | cons e' rest =>
      rw [(next_of_upcoming_cons hu).2]
      exact Nat.lt_succ_self _

/-- Something was read if the declaration that is handed out for it is not empty. -/
theorem length_upcoming_of_read {f : ε → Declaration}
    (h : ((c.next.1.map f).getD {}).isEmpty = false) :
    c.next.2.upcoming.length < c.upcoming.length := by
  cases hc : c.next.1 with
  | none =>
      rw [hc] at h
      exact absurd (show ({} : Declaration).isEmpty = false from h) (by decide)
  | some e => exact length_upcoming_next hc

/-- What a change of the last entry leaves alone, it leaves alone for every entry. -/
theorem map_modifyLast {β : Type v} {f : ε → ε} {g : ε → β} (c : Cursor ε)
    (h : ∀ e, g (f e) = g e) : (c.modifyLast f).toList.map g = c.toList.map g := by
  unfold toList modifyLast
  apply List.ext_getElem?
  intro i
  simp only [List.getElem?_map, Array.getElem?_toList, Array.getElem?_modify]
  split
  · cases c.entries[i]? with
    | none => rfl
    | some e => simp [h]
  · rfl

end Cursor

/-- A source streams the entries of its cursor, if it hands out their declarations and knows the
current entry by its declaration. What it knows may rest on what reading on preserves. -/
theorem streams_of_cursor {σ : Type u} [DeclarationSource σ] {ε : Type v} (cursor : σ → Cursor ε)
    (declaration : ε → Declaration) {item : ε → Item} (P : σ → Prop)
    (hread : ∀ s, (next s).1 = ((cursor s).next.1.map declaration).getD {})
    (hcursor : ∀ s, cursor (next s).2 = (cursor s).next.2)
    (hkept : ∀ s, P s → P (next s).2)
    (hitem : ∀ s e, P s → (cursor s).current? = some e → itemOf s (declaration e) = item e)
    {src : σ} (h : P src) : Streams src ((cursor src).upcoming.map item) := by
  generalize hu : (cursor src).upcoming = rest
  induction rest generalizing src with
  | nil =>
      constructor
      · exact fun i x hx => nomatch hx
      · intro i _
        -- Reading on at the end stays there.
        induction i generalizing src with
        | zero =>
            show (next src).1 = {}
            rw [hread, (Cursor.next_of_upcoming_nil hu).1]
            rfl
        | succ i ih =>
            have hend : (cursor (next src).2).upcoming = [] := by
              rw [hcursor]
              exact (Cursor.next_of_upcoming_nil hu).2
            exact ih (hkept src h) hend (Nat.zero_le i)
  | cons e rest ih =>
      have hnext := Cursor.next_of_upcoming_cons hu
      have hcurrent : (cursor (next src).2).current? = some e := by
        rw [hcursor, Cursor.current?_next]
        exact hnext.1
      have hrest : (cursor (next src).2).upcoming = rest := by
        rw [hcursor]
        exact hnext.2
      have hd : (next src).1 = declaration e := by
        rw [hread, hnext.1]
        rfl
      have hi : itemOf (next src).2 (declaration e) = item e :=
        hitem _ e (hkept src h) hcurrent
      -- The declaration of an item is the one that was asked about.
      have hde : (item e).declaration = declaration e := by
        rw [← hi]
        rfl
      rw [List.map_cons]
      apply Streams.cons
      · rw [hd, hde]
      · rw [hde, hi]
      · exact ih (hkept src h) hrest

private theorem find?_of_nodup {α : Type u} {β : Type v} [DecidableEq β] {f : α → β}
    {xs : List α} {x : α} (hn : (xs.map f).Nodup) (hx : x ∈ xs) :
    xs.find? (fun y => f y = f x) = some x := by
  induction xs with
  | nil => exact nomatch hx
  | cons y ys ih =>
      rw [List.map_cons, List.nodup_cons] at hn
      rcases List.mem_cons.1 hx with rfl | hx
      · simp
      · have hne : f y ≠ f x := fun he => hn.1 (he ▸ List.mem_map_of_mem hx)
        rw [List.find?_cons_of_neg (by simpa using hne)]
        exact ih hn.2 hx

/-! ## Scripts -/

/-- What a script records about an entry. -/
def ScriptEntry.item (e : ScriptEntry) : Item :=
  ⟨e.declaration, e.ancestors, e.declaredType, e.visibility, e.flags⟩

namespace Script

variable {s : Script}

instance : SteadyTypes Script where
  typeDeclaration_next s := by
    funext t
    change typeDeclaration { s with cursor := s.cursor.next.2 } t = typeDeclaration s t
    unfold typeDeclaration facts? entries
    rw [Cursor.toList_next]
  stripAlias_next _ := rfl
  element_next _ := rfl
  isConst_next _ := rfl

/-- What is still to be read of a script. -/
def upcoming (s : Script) : List Item := s.cursor.upcoming.map (·.item)

/-- The recorded declarations in order. -/
def declarations (s : Script) : List Declaration := s.entries.map (·.declaration)

/-- Scripts that were written down step by step and perhaps read meanwhile. -/
inductive Recorded : Script → Prop where
  | new : Recorded default
  | leaf {s : Script} (hs : Recorded s) (kind : DeclarationKind) (name : String) :
      Recorded (s.leaf kind name)
  | nest {s : Script} (hs : Recorded s) (kind : DeclarationKind) (name : String) :
      Recorded (s.nest kind name)
  | close {s : Script} (hs : Recorded s) : Recorded s.close
  | withType {s : Script} (hs : Recorded s) (t : DeclaredType) : Recorded (s.withType t)
  | withVisibility {s : Script} (hs : Recorded s) (v : Visibility) :
      Recorded (s.withVisibility v)
  | withFlags {s : Script} (hs : Recorded s) (f : MethodFlags) : Recorded (s.withFlags f)
  | defineType {s : Script} (hs : Recorded s) (spelling : String) (facts : TypeFacts) :
      Recorded (s.defineType spelling facts)
  | next {s : Script} (hs : Recorded s) : Recorded (next s).2
  | rewind {s : Script} (hs : Recorded s) : Recorded s.rewind

theorem declarations_leaf (s : Script) (kind : DeclarationKind) (name : String) :
    (s.leaf kind name).declarations = s.declarations ++ [s.declare kind name] := by
  simp [declarations]

/-- Saying more about the last entry changes no declaration. -/
theorem declarations_modifyLast (s : Script) {f : ScriptEntry → ScriptEntry}
    (hf : ∀ e, (f e).declaration = e.declaration) :
    ({ s with cursor := s.cursor.modifyLast f } : Script).declarations = s.declarations :=
  s.cursor.map_modifyLast hf

theorem declarations_next (s : Script) :
    (DeclarationSource.next s).2.declarations = s.declarations := by
  change ({ s with cursor := s.cursor.next.2 } : Script).declarations = s.declarations
  unfold declarations entries
  rw [Cursor.toList_next]

/-- What a script says of an entry when it is asked about its declaration. -/
def answer (s : Script) (e : ScriptEntry) : Item where
  declaration := e.declaration
  ancestors := e.ancestors
  type := declaredType s e.declaration
  visibility := visibility s e.declaration
  flags := methodFlags s e.declaration

/-- Answers depend on the entry that is found. -/
theorem answer_congr {s' : Script} {e : ScriptEntry}
    (h : Script.entry? s' e.declaration = s.entry? e.declaration) : s'.answer e = s.answer e := by
  simp only [answer, declaredType, visibility, methodFlags, h]

/-- A script streams what it answers, however long it is. -/
theorem streams_answers (s : Script) : Streams s (s.cursor.upcoming.map s.answer) := by
  apply streams_of_cursor Script.cursor (·.declaration) fun s' : Script => s'.entries = s.entries
  · exact fun s' => rfl
  · exact fun s' => rfl
  · intro s' hs'
    exact (Cursor.toList_next s'.cursor).trans hs'
  · intro s' e hs' hcurrent
    have hanswer : s'.answer e = s.answer e := by
      apply answer_congr
      unfold entry?
      rw [hs']
    rw [← hanswer, itemOf, answer]
    congr 1
    show (s'.cursor.current?.map (·.ancestors)).getD [] = e.ancestors
    rw [hcurrent]
    rfl
  · rfl

/-- A script delivers what it answers, if no declaration is empty. -/
theorem delivers_answers (hne : ∀ e ∈ s.entries, e.declaration.isEmpty = false) :
    Delivers s (s.cursor.upcoming.map s.answer) := by
  apply s.streams_answers.delivers
  intro i hi
  obtain ⟨e, he, rfl⟩ := List.mem_map.1 hi
  exact hne e (List.mem_of_mem_drop he)

namespace Recorded

/-- Every declaration stands in a line of its own, up to the greatest line number. -/
theorem location (hs : Recorded s) : ∀ {i : Nat} {d : Declaration},
    s.declarations[i]? = some d → d.location = ⟨file, min (i + 1) maxLine, 1⟩ := by
  have recorded : ∀ {s : Script} (kind : DeclarationKind) (name : String),
      (∀ {i : Nat} {d : Declaration}, s.declarations[i]? = some d →
        d.location = ⟨file, min (i + 1) maxLine, 1⟩) →
      ∀ {i : Nat} {d : Declaration}, (s.leaf kind name).declarations[i]? = some d →
        d.location = ⟨file, min (i + 1) maxLine, 1⟩ := by
    intro s kind name ih i d hd
    rw [declarations_leaf] at hd
    rcases Nat.lt_or_ge i s.declarations.length with hlt | hge
    · rw [List.getElem?_append_left hlt] at hd
      exact ih hd
    · rw [List.getElem?_append_right hge, List.getElem?_singleton] at hd
      split at hd
      · rename_i hi
        obtain rfl := Option.some.inj hd
        have hsize : s.declarations.length = s.cursor.size := by
          simp [declarations, entries, Cursor.toList, Cursor.size]
        have hlast : i = s.cursor.size := by omega
        rw [hlast]
        rfl
      · cases hd
  induction hs with
  | new =>
      intro i d hd
      have hnone : (default : Script).declarations[i]? = none := rfl
      rw [hnone] at hd
      cases hd
  | leaf hs kind name ih => exact recorded kind name ih
  | nest hs kind name ih => exact recorded kind name ih
  | close hs ih => exact ih
  | @withType s hs t ih =>
      have he : (s.withType t).declarations = s.declarations :=
        declarations_modifyLast s fun _ => rfl
      rwa [he]
  | @withVisibility s hs v ih =>
      have he : (s.withVisibility v).declarations = s.declarations :=
        declarations_modifyLast s fun _ => rfl
      rwa [he]
  | @withFlags s hs f ih =>
      have he : (s.withFlags f).declarations = s.declarations :=
        declarations_modifyLast s fun _ => rfl
      rwa [he]
  | defineType hs spelling facts ih => exact ih
  | next hs ih =>
      intro i d hd
      rw [declarations_next] at hd
      exact ih hd
  | rewind hs ih => exact ih

/-- While there are lines enough, no two declarations are equal. -/
theorem nodup (hs : Recorded s) (hl : s.entries.length ≤ maxLine) : s.declarations.Nodup := by
  rw [List.nodup_iff_getElem?_ne_getElem?]
  intro i j hij hj he
  have hlen : s.declarations.length = s.entries.length := List.length_map ..
  have hi : i < s.declarations.length := by omega
  have hli := hs.location (List.getElem?_eq_getElem hi)
  have hlj := hs.location (he ▸ List.getElem?_eq_getElem hi)
  have hline : min (i + 1) maxLine = min (j + 1) maxLine :=
    congrArg Location.line (hli.symm.trans hlj)
  omega

/-- While there are lines enough, each entry is found by its declaration and answered with. -/
theorem answer_eq (hs : Recorded s) (hl : s.entries.length ≤ maxLine) {e : ScriptEntry}
    (he : e ∈ s.entries) : s.answer e = e.item := by
  have hfound : s.entry? e.declaration = some e := find?_of_nodup (hs.nodup hl) he
  simp only [answer, declaredType, visibility, methodFlags, hfound, Option.map_some,
    Option.getD_some]
  rfl

theorem isEmpty_declaration (hs : Recorded s) {e : ScriptEntry} (he : e ∈ s.entries) :
    e.declaration.isEmpty = false := by
  have hmem : e.declaration ∈ s.declarations := List.mem_map_of_mem he
  obtain ⟨i, hi⟩ := List.mem_iff_getElem?.1 hmem
  rw [Declaration.isEmpty, hs.location hi]
  rfl

/-- Every entry of a script is streamed, and no two are taken for each other while there are
lines enough. -/
theorem streams (hs : Recorded s) (hl : s.entries.length ≤ maxLine) : Streams s s.upcoming := by
  have hanswers : s.cursor.upcoming.map s.answer = s.upcoming := by
    apply List.map_congr_left
    intro e he
    exact hs.answer_eq hl (List.mem_of_mem_drop he)
  rw [← hanswers]
  exact s.streams_answers

/-- A script answers for the very entry just read. -/
theorem delivers (hs : Recorded s) (hl : s.entries.length ≤ maxLine) :
    Delivers s s.upcoming := by
  apply (hs.streams hl).delivers
  intro i hi
  obtain ⟨e, he, rfl⟩ := List.mem_map.1 hi
  exact hs.isEmpty_declaration (List.mem_of_mem_drop he)

/-- However many lines there are, the declarations come in their order, each with its own
ancestors. -/
theorem ancestors_of_delivers (hs : Recorded s) {items : List Item} (hd : Delivers s items) :
    items.map (fun i => (i.declaration, i.ancestors)) =
      s.upcoming.map fun i => (i.declaration, i.ancestors) := by
  rw [hd.unique (delivers_answers fun _ he => hs.isEmpty_declaration he), upcoming,
    List.map_map, List.map_map]
  rfl

end Recorded

end Script

/-! ## Dumps -/

namespace Dump

/-- What a dump records about an entry of its stream. -/
def StreamEntry.item (names : NameTable) (e : StreamEntry) : Item :=
  ⟨e.declaration, e.ancestors, Source.declaredTypeOf names e, e.visibility, e.flags⟩

namespace Source

variable {s : Source}

instance : SteadyTypes Source where
  typeDeclaration_next _ := rfl
  stripAlias_next _ := rfl
  element_next _ := rfl
  isConst_next _ := rfl

/-- What is still to be read of a dump. -/
def upcoming (s : Source) : List Item := s.cursor.upcoming.map (·.item s.names)

/-- A dump answers with its current entry. -/
theorem itemOf_eq {e : StreamEntry} (hcurrent : s.cursor.current? = some e) :
    itemOf s e.declaration = e.item s.names := by
  have hentry : s.entry? e.declaration = some e := by
    unfold entry?
    rw [hcurrent]
    simp
  simp only [itemOf, ancestors, declaredType, visibility, methodFlags, hcurrent, hentry,
    Option.map_some, Option.getD_some]
  rfl

/-- Every entry of a dump is streamed, whichever others equal it. -/
theorem streams (s : Source) : Streams s s.upcoming := by
  apply streams_of_cursor Source.cursor (·.declaration) fun s' : Source => s'.names = s.names
  · exact fun s' => rfl
  · exact fun s' => rfl
  · exact fun s' hs' => hs'
  · intro s' e hs' hcurrent
    rw [itemOf_eq hcurrent, hs']
  · rfl

/-- The entries that are read: an empty declaration ends a stream, wherever it stands. -/
def reached (s : Source) : List StreamEntry :=
  s.cursor.upcoming.takeWhile fun e => !e.declaration.isEmpty

/-- A dump answers for the entry just read, whichever others equal it. -/
theorem delivers_reached (s : Source) : Delivers s (s.reached.map (·.item s.names)) := by
  have hall := s.streams.delivers_takeWhile
  rwa [upcoming, List.takeWhile_map] at hall

/-- Without empty declarations all that is left is read. -/
theorem reached_eq (hne : ∀ i ∈ s.upcoming, i.declaration.isEmpty = false) :
    s.reached = s.cursor.upcoming := by
  refine List.takeWhile_eq_self_iff.2 fun e he => ?_
  have hempty := hne (e.item s.names) (List.mem_map_of_mem he)
  rw [show e.declaration.isEmpty = false from hempty]
  rfl

theorem delivers (hne : ∀ i ∈ s.upcoming, i.declaration.isEmpty = false) :
    Delivers s s.upcoming :=
  s.streams.delivers hne

end Source

end Dump

/-! ## Two linked structures -/

/-- A structure with a base, a pointer to itself, an array of an alias and a method that uses
both, as a script. -/
def Script.linked : Script :=
  let number : DeclaredType := { identifier := "unsigned int", kind := .uInt }
  let id : DeclaredType := { identifier := "Id", kind := .typedef }
  let ids : DeclaredType := { identifier := "Id[4]", kind := .constantArray, dimensions := 1 }
  let numbers : DeclaredType := { ids with identifier := "unsigned int[4]" }
  let node : DeclaredType := { identifier := "Node", kind := .struct }
  let pointer : DeclaredType := { identifier := "Node *", kind := .pointer, dimensions := 1 }
  let base := (default : Script)
    |>.nest .structDecl "Base" |>.leaf .field "Base::id" |>.withType id |>.close
  let fields := base
    |>.nest .structDecl "Node" |>.leaf .baseSpecifier "Base"
    |>.leaf .field "Node::next" |>.withType pointer |>.withVisibility .publicAccess
    |>.leaf .field "Node::seen" |>.withType ids |>.withVisibility .privateAccess
  let methods := fields
    |>.nest .method "Node::find" |>.withType pointer |>.withFlags { isConst := true }
    |>.leaf .parameter "Node::find::id" |>.withType id |>.close |>.close
  methods
    |>.defineType "Id" { target := some number }
    |>.defineType "Id[4]" { target := some numbers }
    |>.defineType "unsigned int[4]" { element := some number }
    |>.defineType "Node *" { element := some node }

theorem Script.recorded_linked : Script.linked.Recorded :=
  Recorded.new
    |>.nest _ _ |>.leaf _ _ |>.withType _ |>.close
    |>.nest _ _ |>.leaf _ _
    |>.leaf _ _ |>.withType _ |>.withVisibility _
    |>.leaf _ _ |>.withType _ |>.withVisibility _
    |>.nest _ _ |>.withType _ |>.withFlags _
    |>.leaf _ _ |>.withType _ |>.close |>.close
    |>.defineType _ _ |>.defineType _ _ |>.defineType _ _ |>.defineType _ _

/-- The same structures, as a dump. -/
def Dump.Source.linked : Dump.Source :=
  let named (name : String) : Head := { name := some name }
  .ofTree "node.hpp" <| .mk .other [
    .mk (.typeAlias (named "Id") (some "unsigned int")) [],
    .mk (.record (named "Base") { isDefinition := true }) [
      .mk (.field (named "id") (some "Id")) []],
    .mk (.record (named "Node")
        { isDefinition := true, bases := [{ spelling := some "Base" }] }) [
      .mk (.field (named "next") (some "Node *")) [],
      .mk (.accessSpecifier (some "private")) [],
      .mk (.field (named "seen") (some "Id[4]")) [],
      .mk (.function .member (named "find") { type := some "Node *(Id) const" }) [
        .mk (.parameter (named "id") (some "Id")) []]]]

end DeclAtlas
