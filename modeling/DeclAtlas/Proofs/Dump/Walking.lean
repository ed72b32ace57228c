import DeclAtlas.Dump.Stream
import Mathlib.Logic.Relation

/-!
# Walks of a syntax tree

A walk goes through a tree node by node. What it does at one node is `walkStep`, which is
given what to make of the nodes inside as a function. A relation between walks that every
such step respects is therefore respected by the walk of the whole tree, and no proof about
walks has to go by induction on trees again.

## Main results

* `walk_eq_step`: a walk takes one step at a node and walks what is inside it.
* `walk_induct`: what every step respects, the walk of a tree respects.
-/

namespace DeclAtlas.Dump

open Text

/-! ## Trees -/

/-- The node is the given one or stands somewhere inside it. -/
def Node.Within (n root : Node) : Prop :=
  Relation.ReflTransGen (fun outer inner => inner ∈ outer.inner) root n

theorem Node.Within.refl (n : Node) : n.Within n := Relation.ReflTransGen.refl

theorem Node.Within.inner {n m root : Node} (h : n.Within root) (hm : m ∈ n.inner) :
    m.Within root :=
  Relation.ReflTransGen.tail h hm

/-- What is true of a node and within all nodes directly inside is true within the node. -/
theorem Node.forall_within_mk {P : Node → Prop} {payload : Payload} {nodes : List Node}
    (hp : P (.mk payload nodes)) (hn : ∀ m ∈ nodes, ∀ n : Node, n.Within m → P n) :
    ∀ n : Node, n.Within (.mk payload nodes) → P n := by
  intro n h
  rcases Relation.ReflTransGen.cases_head h with rfl | ⟨m, hm, h⟩
  · exact hp
  · exact hn m hm n h

/-! ## One step -/

/-- What a walk does at a node, if `members` is what it makes of the nodes inside. -/
def walkStep (input : String) (ancestors : List Declaration) (n : Node)
    (members : List Declaration → Walk → Walk) (w : Walk) : Walk :=
  match n.payload with
  | .namespaceDecl head => w.enterNamespace input ancestors head members
  | .record head facts =>
    match head.name with
    | some name =>
      if head.isImplicit then w else w.record input ancestors head facts name members
    | none => w
  | .specialization head facts =>
    match head.name.bind (specializationName? · n.inner) with
    | some name => w.record input ancestors head facts name members
    | none => w
  | .field head type => w.value input ancestors .field head type
  | .function role head facts => w.function input ancestors role head facts n.inner
  | .typeAlias head target => w.typeAlias input ancestors head target
  | .enumeration head => w.enumeration input ancestors head
  | .accessSpecifier access =>
    if inRecord ancestors then
      { w with access := (access.map Visibility.ofAccess).getD .invalid }
    else w
  | .parameter .. | .templateArgument _ => w
  | .other => members ancestors w

/-- A walk takes one step at a node and walks what is inside it. -/
theorem walk_eq_step (input : String) (ancestors : List Declaration) (n : Node) (w : Walk) :
    walk input ancestors n w =
      walkStep input ancestors n (fun inside w => walkAll input inside n.inner w) w := by
  obtain ⟨payload, nodes⟩ := n
  cases payload <;> rw [walk.eq_def] <;> rfl

theorem isStructure_of_recordKind {tag : Option String} {kind : DeclarationKind}
    (h : Walk.recordKind? tag = some kind) : kind.isStructure = true := by
  unfold Walk.recordKind? at h
  split at h <;> cases h <;> rfl

theorem entries_typeAlias (w : Walk) (input : String) (ancestors : List Declaration)
    (head : Head) (target : Option String) :
    (w.typeAlias input ancestors head target).entries = w.entries := by
  unfold Walk.typeAlias
  split
  · split <;> rfl
  · rfl

theorem entries_enumeration (w : Walk) (input : String) (ancestors : List Declaration)
    (head : Head) : (w.enumeration input ancestors head).entries = w.entries := by
  unfold Walk.enumeration
  split
  · split <;> rfl
  · rfl

/-! ## Whole trees -/

section Induct

variable {input : String} {root : Node} {R : List Declaration → Walk → Walk → Prop}

mutual

private theorem walk_respects (hrefl : ∀ ancestors w, R ancestors w w)
    (htrans : ∀ {ancestors w₁ w₂ w₃}, R ancestors w₁ w₂ → R ancestors w₂ w₃ →
      R ancestors w₁ w₃)
    (hstep : ∀ n : Node, n.Within root → ∀ ancestors w members,
      (∀ inside w', R inside w' (members inside w')) →
        R ancestors w (walkStep input ancestors n members w)) :
    ∀ n : Node, n.Within root → ∀ ancestors w, R ancestors w (walk input ancestors n w)
  | .mk payload nodes, hn, ancestors, w => by
      rw [walk_eq_step]
      exact hstep _ hn ancestors w _ fun inside w' =>
        walkAll_respects hrefl htrans hstep nodes (fun m hm => hn.inner hm) inside w'

private theorem walkAll_respects (hrefl : ∀ ancestors w, R ancestors w w)
    (htrans : ∀ {ancestors w₁ w₂ w₃}, R ancestors w₁ w₂ → R ancestors w₂ w₃ →
      R ancestors w₁ w₃)
    (hstep : ∀ n : Node, n.Within root → ∀ ancestors w members,
      (∀ inside w', R inside w' (members inside w')) →
        R ancestors w (walkStep input ancestors n members w)) :
    ∀ nodes : List Node, (∀ n ∈ nodes, n.Within root) → ∀ ancestors w,
      R ancestors w (walkAll input ancestors nodes w)
  | [], _, ancestors, w => by
      rw [walkAll]
      exact hrefl ancestors w
  | n :: rest, hn, ancestors, w => by
      rw [walkAll]
      have hfirst := walk_respects hrefl htrans hstep n (hn n List.mem_cons_self) ancestors w
      have hrest := walkAll_respects hrefl htrans hstep rest
        (fun m hm => hn m (List.mem_cons_of_mem n hm)) ancestors (walk input ancestors n w)
      exact htrans hfirst hrest

end

/-- What every step at a node of the tree respects, the walk of the tree respects. -/
theorem walk_induct (hrefl : ∀ ancestors w, R ancestors w w)
    (htrans : ∀ {ancestors w₁ w₂ w₃}, R ancestors w₁ w₂ → R ancestors w₂ w₃ →
      R ancestors w₁ w₃)
    (hstep : ∀ n : Node, n.Within root → ∀ ancestors w members,
      (∀ inside w', R inside w' (members inside w')) →
        R ancestors w (walkStep input ancestors n members w))
    (ancestors : List Declaration) (w : Walk) :
    R ancestors w (walk input ancestors root w) :=
  walk_respects hrefl htrans hstep root (.refl root) ancestors w

end Induct

end DeclAtlas.Dump
