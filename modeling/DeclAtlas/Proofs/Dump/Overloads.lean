import DeclAtlas.Proofs.Dump.Nesting
import DeclAtlas.Proofs.Dump.StopEntries
import DeclAtlas.Proofs.Survey.Methods

/-!
# Overloads

On the stream a parameter says by name which method it belongs to, and overloads share
their name. What tells them apart is that a stop puts a function and its parameters on the
stream with nothing in between. So each parameter finds the method of its own node last, and
the methods of a structure can be read off the tree.

A method from a system header would stay off the stream while its parameters may not; they
would go to an earlier overload. Hence the trees here are without system headers.

## Main results

* `Stop.entries_of_function`: what a function puts on the stream.
* `reached_ofTree`: the stream of a dump is read to its end.
* `foldl_methodsAfter_stop`: what a stop makes of the methods of a structure.
* `build_methods`: the methods of every structure, with their parameters.
-/

namespace DeclAtlas.Dump

open Survey (build owner? methodAs parameterAs methodsAfter keyOf foldl_methodsAfter_of_ne
  foldl_methodsAfter_function)

variable {input : String} {root : Node} {v : Stop} {e : StreamEntry}

/-! ## Functions on the stream -/

/-- No node of the tree is from a system header. -/
def OffSystem (input : String) (root : Node) : Prop :=
  ∀ n : Node, n.Within root → ∀ head, n.payload.head? = some head →
    isSystem input head.location = false

theorem offSystem_mk_iff {payload : Payload} {nodes : List Node} :
    OffSystem input (.mk payload nodes) ↔
      (∀ head, payload.head? = some head → isSystem input head.location = false) ∧
        ∀ m ∈ nodes, OffSystem input m := by
  constructor
  · intro h
    refine ⟨h _ (.refl _), fun m hm n hn => h n ?_⟩
    exact Relation.ReflTransGen.head hm hn
  · rintro ⟨hhere, hnodes⟩
    exact Node.forall_within_mk hhere hnodes

/-- The parameters among the nodes inside a function, by head and type; those that the
compiler added do not count. -/
def writtenParameters (nodes : List Node) : List (Head × Option String) :=
  nodes.filterMap fun n =>
    match n.payload with
    | .parameter head type => if head.isImplicit then none else some (head, type)
    | _ => none

/-- The entry of a function at its own node: it has a name and was not added by the
compiler. -/
def Stop.function? (input : String) (v : Stop) : Option StreamEntry :=
  match v.node.payload with
  | .function role head facts =>
    if head.isImplicit then none
    else
      let type := facts.type.getD ""
      let (returnType, qualifiers) := (FunctionType.split? type).getD (type, "")
      head.name.map fun name => {
        declaration := declare input v.ancestors
          (if role = .free || !inRecord v.ancestors then .function else .method) head name
        ancestors := v.ancestors
        spelling := some returnType
        visibility := ({ access := v.access } : Walk).memberVisibility v.ancestors head
        flags := {
          isVirtual := facts.isVirtual
          isPure := facts.isPure
          isStatic := facts.storageClass = some "static"
          isConst := (Text.words qualifiers.toList).contains "const".toList
          isCtor := role = .constructor } }
  | _ => none

/-- The parameters of a function follow it on the stream. -/
theorem entries_parameters {inside : List Declaration} {nodes : List Node}
    (hin : inRecord inside = false)
    (hoff : ∀ n ∈ nodes, ∀ head, n.payload.head? = some head →
      isSystem input head.location = false) (w : Walk) :
    (w.parameters input inside nodes).entries.toList = w.entries.toList ++
      (writtenParameters nodes).map (parameterEntry input inside) := by
  unfold Walk.parameters writtenParameters
  rw [Walk.Apart.entries_foldl, List.map_filterMap, List.filterMap_eq_flatMap_toList]
  · congr 1
    apply List.flatMap_congr
    intro n hn
    have hsystem := hoff n hn
    cases hp : n.payload with
    | parameter head type =>
        rw [hp] at hsystem
        unfold Walk.value Walk.push Walk.memberVisibility parameterEntry
        cases hi : head.isImplicit
        · cases ha : head.access <;> simp [hi, hsystem head rfl, hin, ha]
        · simp [hi]
    | _ => rfl
  · intro n
    split
    · exact Walk.Apart.value ..
    · exact .id

theorem function?_eq_some (hf : v.function? input = some e) :
    e.ancestors = v.ancestors ∧ (e.declaration.kind = .method ∨ e.declaration.kind = .function) := by
  unfold Stop.function? at hf
  split at hf
  · split at hf
    · cases hf
    · obtain ⟨name, -, rfl⟩ := Option.map_eq_some_iff.1 hf
      refine ⟨rfl, ?_⟩
      dsimp only [declare]
      split
      · exact Or.inr rfl
      · exact Or.inl rfl
  · cases hf

/-- A stop at a function puts it on the stream and its parameters after it. -/
theorem Stop.entries_of_function (hoff : OffSystem input root) (hv : v.node.Within root)
    (hf : v.function? input = some e) :
    v.entries input = e :: (writtenParameters v.node.inner).map
      (parameterEntry input (v.ancestors ++ [e.declaration])) := by
  have hin := inRecord_of_function (function?_eq_some hf).2 v.ancestors
  have hinner : ∀ m ∈ v.node.inner, ∀ head, m.payload.head? = some head →
      isSystem input head.location = false := fun m hm => hoff m (hv.inner hm)
  have hhere := hoff _ hv
  unfold Stop.function? at hf
  unfold Stop.entries walkStep
  split at hf
  · rename_i role head facts hp
    rw [hp] at hhere ⊢
    dsimp only
    split at hf
    · cases hf
    · rename_i himp
      obtain ⟨name, hname, rfl⟩ := Option.map_eq_some_iff.1 hf
      unfold Walk.function
      rw [hname]
      dsimp only
      rw [if_neg himp]
      unfold Walk.within
      dsimp only
      rw [entries_parameters hin hinner]
      unfold Walk.push
      rw [hhere head rfl]
      rfl
  · cases hf

/-- Other stops put neither methods nor parameters on the stream. -/
theorem Stop.kind_of_no_function (hf : v.function? input = none) (he : e ∈ v.entries input) :
    e.declaration.kind ≠ .method ∧ e.declaration.kind ≠ .parameter := by
  cases puts_of_mem he with
  | scope ho hd _ =>
      rw [hd]
      rcases kind_of_opened ho with hk | hk
      · rw [hk]
        decide
      · exact ⟨fun h => by rw [h] at hk; exact absurd hk (by decide),
          fun h => by rw [h] at hk; exact absurd hk (by decide)⟩
  | base _ _ hb =>
      obtain ⟨b, -, hw⟩ := hb
      rw [hw.kind]
      decide
  | field _ hk _ =>
      rw [hk]
      decide
  | @function role head facts hp _ =>
      -- A function that has no entry has no parameters on the stream either.
      have hnone : v.entries input = [] := by
        unfold Stop.function? at hf
        unfold Stop.entries walkStep
        rw [hp] at hf ⊢
        dsimp only at hf ⊢
        unfold Walk.function
        cases hname : head.name with
        | none => rfl
        | some name =>
            rw [hname] at hf
            cases himp : head.isImplicit with
            | true => rfl
            | false =>
                rw [himp] at hf
                exact absurd hf (by simp)
      rw [hnone] at he
      exact absurd he List.not_mem_nil

/-! ## The stream of a dump -/

/-- The items of a stop. -/
def Stop.items (input : String) (names : NameTable) (v : Stop) : List Item :=
  (v.entries input).map fun e => (nameBase names e).item names

theorem toList_ofTree (input : String) (root : Node) :
    (Source.ofTree input root).cursor.toList =
      (Walk.ofTree input root).entries.toList.map (nameBase (Walk.ofTree input root).names) :=
  Array.toList_map

/-- The stream of a dump is read to its end, stop by stop. -/
theorem reached_ofTree (hi : input ≠ "") (root : Node) :
    (Source.ofTree input root).reached.map (·.item (Source.ofTree input root).names) =
      (Stop.ofTree input root).flatMap (Stop.items input (Source.ofTree input root).names) := by
  have hstream : NestedStream input root (Walk.ofTree input root).entries.toList :=
    (walk_extends hi (by simp) (Stacked.nil _)).nested .nil
  have hplaced : ∀ e ∈ (Source.ofTree input root).cursor.toList,
      e.declaration.isEmpty = false := by
    intro e he
    rw [toList_ofTree] at he
    obtain ⟨x, hx, rfl⟩ := List.mem_map.1 he
    obtain ⟨before, after, heq⟩ := List.append_of_mem hx
    unfold Declaration.isEmpty
    rw [location_nameBase]
    exact (hstream.nested heq).isPlaced
  have hreached : (Source.ofTree input root).reached =
      (Source.ofTree input root).cursor.toList := by
    apply Source.reached_eq
    intro i hi
    obtain ⟨e, he, rfl⟩ := List.mem_map.1 hi
    exact hplaced e he
  rw [hreached, toList_ofTree, entries_ofTree, List.map_map, List.map_flatMap]
  rfl

/-! ## Methods -/

/-- The method of the structure `q` that a stop is, with the parameters of its node. -/
def Stop.methodOf? (input : String) (names : NameTable) (key : DeclaredType → String)
    (a : Atlas) (q : String) (v : Stop) : Option Method :=
  ((v.function? input).filter fun e =>
      e.declaration.kind = .method && owner? v.ancestors = some q).map fun e =>
    { methodAs key a (e.item names) with
      parameters := (writtenParameters v.node.inner).map fun p =>
        parameterAs key a
          ((parameterEntry input (v.ancestors ++ [e.declaration]) p).item names) }

section Fold

variable {key : DeclaredType → String} {a : Atlas} {q : String} {ms : List Method}
  {names : NameTable}

/-- A stop adds the method that it is, if it is one of the structure, and touches no other. -/
theorem foldl_methodsAfter_stop (hoff : OffSystem input root) (hv : v.node.Within root)
    (names : NameTable) :
    (v.items input names).foldl (methodsAfter key a q) ms =
      ms ++ (v.methodOf? input names key a q).toList := by
  unfold Stop.items Stop.methodOf?
  cases hf : v.function? input with
  | none =>
      rw [foldl_methodsAfter_of_ne]
      · exact (List.append_nil ms).symm
      · intro i hi
        obtain ⟨e, he, rfl⟩ := List.mem_map.1 hi
        show (nameBase names e).declaration.kind ≠ _ ∧ (nameBase names e).declaration.kind ≠ _
        rw [kind_nameBase]
        exact Stop.kind_of_no_function hf he
  | some e =>
      obtain ⟨hancestors, hkind⟩ := function?_eq_some hf
      have hname : nameBase names e = e := by
        apply nameBase_of_ne
        rcases hkind with hk | hk <;> rw [hk] <;> decide
      have hparameters : ∀ p, nameBase names (parameterEntry input
          (v.ancestors ++ [e.declaration]) p) =
            parameterEntry input (v.ancestors ++ [e.declaration]) p :=
        fun p => nameBase_of_ne (by show DeclarationKind.parameter ≠ _; decide) names
      have hinside : ∀ i ∈ (writtenParameters v.node.inner).map (fun p => (parameterEntry input
          (v.ancestors ++ [e.declaration]) p).item names),
            i.declaration.kind = .parameter ∧ i.ancestors = e.ancestors ++ [e.declaration] := by
        intro i hi
        obtain ⟨p, -, rfl⟩ := List.mem_map.1 hi
        rw [hancestors]
        exact ⟨rfl, rfl⟩
      rw [Stop.entries_of_function hoff hv hf, List.map_cons, List.map_map, hname]
      simp only [Function.comp_def, hparameters]
      rw [foldl_methodsAfter_function (i := e.item names) hkind hinside,
        show (e.item names).ancestors = v.ancestors from hancestors, List.map_map]
      rw [show (e.item names).declaration = e.declaration from rfl]
      by_cases hmethod : e.declaration.kind = .method ∧ owner? v.ancestors = some q
      · rw [if_pos hmethod, Option.filter_some_pos (by simpa using hmethod)]
        rfl
      · rw [if_neg hmethod, Option.filter_some_neg (by simpa using hmethod)]
        exact (List.append_nil ms).symm

/-- The methods of a structure are those of the stops. -/
theorem foldl_methodsAfter_stops (hoff : OffSystem input root) (names : NameTable)
    {vs : List Stop} (hvs : ∀ v ∈ vs, v.node.Within root) :
    (vs.flatMap (Stop.items input names)).foldl (methodsAfter key a q) ms =
      ms ++ vs.filterMap (Stop.methodOf? input names key a q) := by
  induction vs generalizing ms with
  | nil => exact (List.append_nil ms).symm
  | cons v vs ih =>
      obtain ⟨hv, hrest⟩ := List.forall_mem_cons.1 hvs
      rw [List.flatMap_cons, List.foldl_append, foldl_methodsAfter_stop hoff hv, ih hrest,
        List.append_assoc, List.filterMap_cons]
      cases v.methodOf? input names key a q <;> rfl

end Fold

/-- The methods of a structure are those that the nodes directly inside it declare, each once
and in the order of the tree, and the parameters of each are those written at its own node. -/
theorem build_methods {input : String} {root : Node} (hi : input ≠ "")
    (hoff : OffSystem input root) {o : SurveyOptions} (hon : o.modelMethods = true) {fuel : Nat}
    {id : ArenaId} {a : Atlas} {src' : Source}
    (hb : build (.standard o) fuel (Source.ofTree input root) id = some (a, src'))
    {h : StructureHandle} {s : Structure} (hs : a.structure? h = some s) :
    s.methods = (Stop.ofTree input root).filterMap
      (Stop.methodOf? input (Source.ofTree input root).names
        (keyOf o (Source.ofTree input root)) a s.qualifiedName) := by
  obtain ⟨uses, hr⟩ := Survey.runs_of_build hb
  have hfound : a.membersOf (fun s => s.methods) s.qualifiedName = s.methods := by
    unfold Atlas.membersOf
    rw [hr.integrity.findStructure h s hs, hs]
    rfl
  have hempty : (Atlas.empty id).membersOf (fun s => s.methods) s.qualifiedName = [] :=
    Atlas.membersOf_of_not_mem List.not_mem_nil
  have hdelivers := Source.delivers_reached (Source.ofTree input root)
  rw [reached_ofTree hi] at hdelivers
  have hall := hr.methods (q := s.qualifiedName) hon hdelivers rfl (.refl a)
  rw [hfound, hempty, foldl_methodsAfter_stops hoff _ fun v hv => within_of_mem_stops hv] at hall
  exact hall

/-- A struct with two overloads of a method and a constructor, declared twice. -/
def Node.overloaded : Node :=
  let void : FunctionFacts := { type := some "void (int)" }
  let parameter (name type : String) : Node := .mk (.parameter { name := some name } (some type)) []
  .mk .other [
    .mk (.record { name := some "S" } {}) [
      .mk (.function .member { name := some "f" } void) [parameter "a" "int"]],
    .mk (.record { name := some "S" } { isDefinition := true }) [
      .mk (.function .member { name := some "f" } { type := some "void (char, int)" })
        [parameter "b" "char", parameter "c" "int"],
      .mk (.function .constructor { name := some "S" } { type := some "void ()" }) []]]

theorem build_methods_overloaded :
    "s.hpp" ≠ "" ∧ OffSystem "s.hpp" Node.overloaded ∧
    ({ modelMethods := true } : SurveyOptions).modelMethods = true ∧
    ∃ a src' h s,
      build (.standard { modelMethods := true }) 9 (Source.ofTree "s.hpp" Node.overloaded) ⟨1⟩ =
        some (a, src') ∧
      a.structure? h = some s ∧
      s.methods.map (fun m => (m.qualifiedName, m.parameters.map (·.identifier))) =
        [("S::f", ["a"]), ("S::f", ["b", "c"]), ("S::S", [])] ∧
      s.methods = (Stop.ofTree "s.hpp" Node.overloaded).filterMap
        (Stop.methodOf? "s.hpp" (Source.ofTree "s.hpp" Node.overloaded).names
          (keyOf { modelMethods := true } (Source.ofTree "s.hpp" Node.overloaded)) a
          s.qualifiedName) := by
  have hoff : OffSystem "s.hpp" Node.overloaded := by
    simp [Node.overloaded, offSystem_mk_iff, Payload.head?, isSystem]
  have hbuilt : ∃ r ∈ build (.standard { modelMethods := true }) 9
      (Source.ofTree "s.hpp" Node.overloaded) ⟨1⟩,
        ∃ s ∈ r.1.structure? (r.1.findStructure "S"),
          s.methods.map (fun m => (m.qualifiedName, m.parameters.map (·.identifier))) =
            [("S::f", ["a"]), ("S::f", ["b", "c"]), ("S::S", [])] := by
    decide +kernel
  obtain ⟨⟨a, src'⟩, hb, s, hs, hmethods⟩ := hbuilt
  exact ⟨by decide, hoff, rfl, a, src', _, s, hb, hs, hmethods,
    build_methods (by decide) hoff rfl hb hs⟩

end DeclAtlas.Dump
