import DeclAtlas.Proofs.Source.Reading

/-!
# Streams, entry by entry

A stream is read entry by entry, each answered for, but which entries are there? A dump has one
for each declaration that its walk records. A script is written down step by step: each step
that records a declaration makes an entry of its own, and no other step makes one.

An entry of a script is nested in the declarations that were opened before it and not closed
again. A close that has nothing left to close does nothing, so a declaration that is opened stays
open until what follows closes more than it opens. `StaysOpen` says so by counting, without a
list of what is open.

## Main results

* `Script.scope_perform`: what is open after any steps.
* `Script.heads_record`: each step that records makes an entry of its own.
* `sources_stream`: both sources answer for the entry just read, at every place.
-/

namespace DeclAtlas

open DeclarationSource

/-! ## Scripts -/

namespace Script

/-! ### Steps -/

/-- A step of writing a script down. -/
inductive Step where
  | leaf (kind : DeclarationKind) (name : String)
  | nest (kind : DeclarationKind) (name : String)
  | close
  | withType (t : DeclaredType)
  | withVisibility (v : Visibility)
  | withFlags (f : MethodFlags)
deriving DecidableEq

namespace Step

/-- The script after one more step. -/
def perform (s : Script) : Step → Script
  | leaf kind name => s.leaf kind name
  | nest kind name => s.nest kind name
  | close => s.close
  | withType t => s.withType t
  | withVisibility v => s.withVisibility v
  | withFlags f => s.withFlags f

/-- The declaration that the step records. -/
def recorded? (s : Script) : Step → Option Declaration
  | leaf kind name | nest kind name => some (s.declare kind name)
  | _ => none

/-- The declaration that the step opens. -/
def opened? (s : Script) : Step → Option Declaration
  | nest kind name => some (s.declare kind name)
  | _ => none

/-- Does the step record a declaration? -/
def records : Step → Bool
  | leaf .. | nest .. => true
  | _ => false

/-- Does the step open a declaration? -/
def opens : Step → Bool
  | nest .. => true
  | _ => false

/-- Does the step close one? -/
def closes : Step → Bool
  | close => true
  | _ => false

end Step

/-- The script that is written down by these steps. -/
def record (steps : List Step) : Script := steps.foldl Step.perform default

/-- Is a declaration that is opened just before these steps open after them? They must never
have closed more than they opened. -/
def StaysOpen (steps : List Step) : Prop :=
  ∀ p, p <+: steps → p.countP Step.closes ≤ p.countP Step.opens

/-- How many of the declarations that are open before them the steps close. -/
def closings : List Step → Nat
  | [] => 0
  | step :: rest =>
    if step.closes then closings rest + 1
    else if step.opens then closings rest - 1 else closings rest

theorem closings_le_iff (steps : List Step) (k : Nat) :
    closings steps ≤ k ↔
      ∀ p, p <+: steps → p.countP Step.closes ≤ p.countP Step.opens + k := by
  induction steps generalizing k with
  | nil => simp [closings]
  | cons step rest ih =>
      -- A prefix is empty, or it is the first step with a prefix of the rest.
      have hfronts :
          (∀ p, p <+: step :: rest → p.countP Step.closes ≤ p.countP Step.opens + k) ↔
            ∀ p, p <+: rest →
              (step :: p).countP Step.closes ≤ (step :: p).countP Step.opens + k := by
        constructor
        · exact fun h p hp => h _ (List.cons_prefix_cons.2 ⟨rfl, hp⟩)
        · intro h p hp
          rcases List.prefix_cons_iff.1 hp with rfl | ⟨q, rfl, hq⟩
          · exact Nat.zero_le _
          · exact h q hq
      rw [hfronts]
      cases step with
      | nest kind name =>
          refine Nat.sub_le_iff_le_add.trans ((ih (k + 1)).trans (forall₂_congr fun p _ => ?_))
          rw [List.countP_cons_of_neg Bool.false_ne_true, List.countP_cons_of_pos rfl]
          omega
      | close =>
          cases k with
          | zero =>
              refine ⟨fun h => (nomatch h), fun h => ?_⟩
              have hnone := h [] List.nil_prefix
              rw [List.countP_cons_of_pos rfl, List.countP_cons_of_neg Bool.false_ne_true] at hnone
              exact nomatch hnone
          | succ k =>
              refine Nat.succ_le_succ_iff.trans ((ih k).trans (forall₂_congr fun p _ => ?_))
              rw [List.countP_cons_of_pos rfl, List.countP_cons_of_neg Bool.false_ne_true]
              omega
      | leaf | withType | withVisibility | withFlags =>
          refine (ih k).trans (forall₂_congr fun p _ => ?_)
          rw [List.countP_cons_of_neg Bool.false_ne_true,
            List.countP_cons_of_neg Bool.false_ne_true]

theorem staysOpen_iff (steps : List Step) : StaysOpen steps ↔ closings steps = 0 := by
  rw [← Nat.le_zero, closings_le_iff]
  rfl

instance (steps : List Step) : Decidable (StaysOpen steps) :=
  decidable_of_iff _ (staysOpen_iff steps).symm

/-- The declarations that steps open and do not close again, outermost first. -/
def stillOpen (s : Script) : List Step → List Declaration
  | [] => []
  | step :: rest =>
    (if StaysOpen rest then (step.opened? s).toList else []) ++ stillOpen (step.perform s) rest

/-- What is open after some steps: of what was open before them all that they do not close, and
then what they open and do not close again. -/
theorem scope_perform (s : Script) (steps : List Step) :
    (steps.foldl Step.perform s).scope =
      s.scope.take (s.scope.length - closings steps) ++ stillOpen s steps := by
  induction steps generalizing s with
  | nil => simp [closings, stillOpen]
  | cons step rest ih =>
      rw [List.foldl_cons, ih, stillOpen, ← List.append_assoc]
      congr 1
      cases step with
      | nest kind name =>
          have hclosings : closings (.nest kind name :: rest) = closings rest - 1 := rfl
          have hscope : (Step.perform s (.nest kind name)).scope =
              s.scope ++ [s.declare kind name] := rfl
          rw [hclosings, hscope]
          simp only [staysOpen_iff]
          split
          · rename_i hopen
            rw [hopen, Nat.sub_zero, Nat.zero_sub, Nat.sub_zero, List.take_length,
              List.take_length]
            rfl
          · rename_i hclosed
            rw [List.append_nil, List.length_append, List.take_append_of_le_length]
            · congr 1
              simp only [List.length_singleton]
              omega
            · simp only [List.length_singleton]
              omega
      | close =>
          have hclosings : closings (.close :: rest) = closings rest + 1 := rfl
          have hscope : (Step.perform s .close).scope = s.scope.dropLast := rfl
          have hopened : (Step.opened? s .close).toList = [] := rfl
          rw [hclosings, hscope, hopened, ite_self, List.append_nil, List.dropLast_eq_take,
            List.take_take, List.length_take]
          congr 1
          omega
      | leaf kind name | withType t | withVisibility v | withFlags f =>
          have hopened : (if StaysOpen rest then ([] : List Declaration) else []) = [] := ite_self _
          exact ((List.append_nil _).symm.trans (congrArg _ hopened.symm))

/-- What is open after all steps is what they opened and did not close. -/
theorem scope_record (steps : List Step) : (record steps).scope = stillOpen default steps := by
  rw [record, scope_perform]
  have hnone : (default : Script).scope = [] := rfl
  rw [hnone, List.take_nil, List.nil_append]

/-! ### Entries -/

/-- What is known of each entry when it is made, and is never changed. -/
def heads (s : Script) : List (Declaration × List Declaration) :=
  s.entries.map fun e => (e.declaration, e.ancestors)

/-- A step makes one entry if it records a declaration, and that is nested in what is open. -/
theorem heads_perform (s : Script) (step : Step) :
    (step.perform s).heads =
      s.heads ++ ((step.recorded? s).map fun d => (d, s.scope)).toList := by
  have hkept {f : ScriptEntry → ScriptEntry}
      (hf : ∀ e, ((f e).declaration, (f e).ancestors) = (e.declaration, e.ancestors)) :
      ({ s with cursor := s.cursor.modifyLast f } : Script).heads = s.heads ++ [] :=
    (s.cursor.map_modifyLast hf).trans (List.append_nil _).symm
  cases step with
  | leaf kind name => simp [heads, Step.perform, Step.recorded?]
  | nest kind name => simp [heads, Step.perform, Step.recorded?]
  | close => exact (List.append_nil _).symm
  | withType t => exact hkept (f := fun e => { e with declaredType := t }) fun _ => rfl
  | withVisibility v => exact hkept (f := fun e => { e with visibility := v }) fun _ => rfl
  | withFlags g => exact hkept (f := fun e => { e with flags := g }) fun _ => rfl

theorem heads_foldl_prefix (s : Script) (steps : List Step) :
    s.heads <+: (steps.foldl Step.perform s).heads := by
  induction steps generalizing s with
  | nil => exact List.prefix_refl _
  | cons step rest ih =>
      have hstep : s.heads <+: (step.perform s).heads := by
        rw [heads_perform]
        exact List.prefix_append ..
      exact hstep.trans (ih _)

theorem length_heads_foldl (s : Script) (steps : List Step) :
    (steps.foldl Step.perform s).heads.length = s.heads.length + steps.countP Step.records := by
  induction steps generalizing s with
  | nil => rfl
  | cons step rest ih =>
      have hone : ((step.recorded? s).map fun d => (d, s.scope)).toList.length =
          if step.records then 1 else 0 := by
        cases step <;> rfl
      rw [List.foldl_cons, ih, heads_perform, List.length_append, hone, List.countP_cons]
      omega

/-- The entry of a step that records: its place is the number of entries before it, and it is
nested in what was opened and not closed by then. -/
theorem heads_record (before after : List Step) {step : Step} {d : Declaration}
    (hd : step.recorded? (record before) = some d) :
    (record (before ++ step :: after)).heads[before.countP Step.records]? =
      some (d, stillOpen default before) := by
  have hsplit : record (before ++ step :: after) =
      after.foldl Step.perform (step.perform (record before)) := by
    rw [record, List.foldl_append]
    rfl
  have hhead : (step.perform (record before)).heads =
      (record before).heads ++ [(d, stillOpen default before)] := by
    rw [heads_perform, hd, scope_record]
    rfl
  have hlen : (record before).heads.length = before.countP Step.records := by
    rw [record, length_heads_foldl]
    exact Nat.zero_add _
  obtain ⟨more, hmore⟩ := heads_foldl_prefix (step.perform (record before)) after
  rw [hsplit, ← hmore, hhead, ← hlen, List.append_assoc,
    List.getElem?_append_right (Nat.le_refl _), Nat.sub_self]
  rfl

/-- Steps do not read. -/
theorem position_foldl (s : Script) (steps : List Step) :
    (steps.foldl Step.perform s).cursor.position = s.cursor.position := by
  induction steps generalizing s with
  | nil => rfl
  | cons step rest ih =>
      have hstep : (step.perform s).cursor.position = s.cursor.position := by
        cases step <;> rfl
      rw [List.foldl_cons, ih, hstep]

theorem upcoming_record (steps : List Step) :
    (record steps).upcoming = (record steps).entries.map (·.item) := by
  have hposition : (record steps).cursor.position = 0 := position_foldl default steps
  rw [upcoming, Cursor.upcoming, hposition, List.drop_zero]
  rfl

theorem Recorded.foldl {s : Script} (hs : Recorded s) (steps : List Step) :
    Recorded (steps.foldl Step.perform s) := by
  induction steps generalizing s with
  | nil => exact hs
  | cons step rest ih =>
      refine ih ?_
      cases step with
      | leaf kind name => exact hs.leaf kind name
      | nest kind name => exact hs.nest kind name
      | close => exact hs.close
      | withType t => exact hs.withType t
      | withVisibility v => exact hs.withVisibility v
      | withFlags f => exact hs.withFlags f

end Script

/-! ## Both sources -/

/-- Both sources answer for the entry just read, at every place of every stream. Each step of a
script that records a declaration makes one entry, nested in the declarations that were opened
and not closed by then, and no other step makes one. -/
theorem sources_stream :
    (∀ steps : List Script.Step,
      (Script.record steps).entries.length = steps.countP Script.Step.records ∧
      (∀ before step after d, steps = before ++ step :: after →
        step.recorded? (Script.record before) = some d →
          (Script.record steps).entries[before.countP Script.Step.records]?.map
              (fun e => (e.declaration, e.ancestors)) =
            some (d, Script.stillOpen default before)) ∧
      ((Script.record steps).entries.length ≤ Script.maxLine →
        Streams (Script.record steps) ((Script.record steps).entries.map (·.item)))) ∧
    ∀ (input : String) (root : Dump.Node),
      Streams (Dump.Source.ofTree input root)
        ((Dump.Source.ofTree input root).cursor.toList.map
          (·.item (Dump.Source.ofTree input root).names)) := by
  refine ⟨fun steps => ⟨?_, ?_, fun hl => ?_⟩, fun input root => ?_⟩
  · have hlen := Script.length_heads_foldl default steps
    rw [Script.heads, List.length_map] at hlen
    exact hlen.trans (Nat.zero_add _)
  · rintro before step after d rfl hd
    rw [← List.getElem?_map]
    exact Script.heads_record before after hd
  · rw [← Script.upcoming_record]
    exact (Script.Recorded.new.foldl steps).streams hl
  · exact (Dump.Source.ofTree input root).streams

/-- Steps that close more than is open, and record one name twice. -/
def Script.overclosed : List Script.Step :=
  [.close, .nest .structDecl "S", .leaf .field "S::a",
    .withType { identifier := "int", kind := .int }, .withVisibility .publicAccess, .close,
    .close, .leaf .field "S::a"]

theorem sources_stream_overclosed :
    (Script.record Script.overclosed).entries.length ≤ Script.maxLine ∧
      Streams (Script.record Script.overclosed)
        [⟨⟨⟨"scripted.h", 1, 1⟩, "S", "S", .structDecl⟩, [], {}, .invalid, {}⟩,
          ⟨⟨⟨"scripted.h", 2, 1⟩, "S::a", "a", .field⟩,
            [⟨⟨"scripted.h", 1, 1⟩, "S", "S", .structDecl⟩],
            { identifier := "int", kind := .int }, .publicAccess, {}⟩,
          ⟨⟨⟨"scripted.h", 3, 1⟩, "S::a", "a", .field⟩, [], {}, .invalid, {}⟩] := by
  have hl : (Script.record Script.overclosed).entries.length ≤ Script.maxLine := by decide
  exact ⟨hl, (sources_stream.1 Script.overclosed).2.2 hl⟩

end DeclAtlas
