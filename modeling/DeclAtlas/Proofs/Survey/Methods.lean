import DeclAtlas.Proofs.Survey.Members

/-!
# Methods and their parameters

A parameter comes as a declaration of its own. It goes to the latest method of the name that
its own declaration stands inside, in the structure around that; which method this is depends
on all that came before. So the methods of a structure are told by one function that goes
through the items of a stream, `methodsAfter`, and neither types nor other members have any
part in it.

What matters is that the parameters of a method follow it directly. Then each of them finds
this method last, whatever others have its name.

## Main results

* `Runs.methods`: the methods of a structure after a run.
* `foldl_giveParameter`: parameters that directly follow their method.
-/

universe u

namespace DeclAtlas.Survey

open DeclarationSource

/-! ## What an item does to methods -/

/-- The names of the structure and of the method that a parameter stands inside. -/
def parameterPlace? (ancestors : List Declaration) : Option (String × String) :=
  match ancestors.reverse with
  | method :: owner :: _ =>
    if method.kind = .method ∧ owner.kind.isStructure = true then
      some (owner.qualifiedName, method.qualifiedName)
    else none
  | _ => none

/-- The parameter that an item is. -/
def parameterAs (key : DeclaredType → String) (a : Atlas) (i : Item) : MethodParameter :=
  ⟨a.findType (key i.type), i.declaration.identifier⟩

/-- Some methods with a parameter for the latest one of a name. -/
def giveParameter (name : String) (p : MethodParameter) (ms : List Method) : List Method :=
  modifyLastWhere (·.qualifiedName = name)
    (fun m => { m with parameters := m.parameters ++ [p] }) ms

/-- What an item makes of the methods `ms` of the structure `q`. -/
def methodsAfter (key : DeclaredType → String) (a : Atlas) (q : String) (ms : List Method)
    (i : Item) : List Method :=
  match i.declaration.kind with
  | .method => if owner? i.ancestors = some q then ms ++ [methodAs key a i] else ms
  | .parameter =>
    match parameterPlace? i.ancestors with
    | some (owner, name) => if q = owner then giveParameter name (parameterAs key a i) ms else ms
    | none => ms
  | _ => ms

theorem methods_addParameter (name : String) (p : MethodParameter) (s : Structure) :
    (addParameter name p s).methods = giveParameter name p s.methods := rfl

theorem giveParameter_nil (name : String) (p : MethodParameter) :
    giveParameter name p [] = [] := rfl

/-- A parameter goes to the last method if that has the name. -/
theorem giveParameter_concat {name : String} {m : Method} (hm : m.qualifiedName = name)
    (p : MethodParameter) (ms : List Method) :
    giveParameter name p (ms ++ [m]) =
      ms ++ [{ m with parameters := m.parameters ++ [p] }] := by
  unfold giveParameter modifyLastWhere
  rw [List.reverse_append, List.reverse_singleton, List.singleton_append,
    modifyLastWhere.first, if_pos (decide_eq_true hm), List.reverse_cons, List.reverse_reverse]

/-- Parameters that directly follow their method are its own, in their order. -/
theorem foldl_giveParameter {name : String} {m : Method} (hm : m.qualifiedName = name)
    (ps : List MethodParameter) (ms : List Method) :
    ps.foldl (fun ms p => giveParameter name p ms) (ms ++ [m]) =
      ms ++ [{ m with parameters := m.parameters ++ ps }] := by
  induction ps generalizing m with
  | nil => rw [List.foldl_nil, List.append_nil]
  | cons p ps ih =>
      have hm' : ({ m with parameters := m.parameters ++ [p] } : Method).qualifiedName = name :=
        hm
      rw [List.foldl_cons, giveParameter_concat hm, ih hm', List.append_assoc]
      rfl

/-- Where the parameters inside `f` go. -/
theorem parameterPlace?_concat (ancestors : List Declaration) (f : Declaration) :
    parameterPlace? (ancestors ++ [f]) =
      if f.kind = .method then (owner? ancestors).map fun n => (n, f.qualifiedName)
      else none := by
  unfold parameterPlace? owner?
  rw [List.reverse_append, List.reverse_singleton, List.singleton_append,
    List.getLast?_eq_head?_reverse]
  cases ancestors.reverse with
  | nil => simp
  | cons o rest =>
      by_cases hk : f.kind = .method
      · by_cases ho : o.kind.isStructure = true <;> simp [hk, ho, Option.filter]
      · simp [hk]

section Fold

variable {key : DeclaredType → String} {a : Atlas} {q : String} {ms : List Method} {i : Item}
  {items : List Item}

/-- What is neither a method nor a parameter leaves the methods as they are. -/
theorem foldl_methodsAfter_of_ne
    (h : ∀ i ∈ items, i.declaration.kind ≠ .method ∧ i.declaration.kind ≠ .parameter) :
    items.foldl (methodsAfter key a q) ms = ms := by
  induction items with
  | nil => rfl
  | cons i items ih =>
      obtain ⟨hi, hrest⟩ := List.forall_mem_cons.1 h
      have hstep : methodsAfter key a q ms i = ms := by
        unfold methodsAfter
        split
        · exact absurd ‹_› hi.1
        · exact absurd ‹_› hi.2
        · rfl
      rw [List.foldl_cons, hstep, ih hrest]

/-- Parameters inside the same function all go to the same place. -/
theorem foldl_methodsAfter_parameters {inside : List Declaration}
    (h : ∀ i ∈ items, i.declaration.kind = .parameter ∧ i.ancestors = inside) :
    items.foldl (methodsAfter key a q) ms =
      match parameterPlace? inside with
      | some (owner, name) =>
        if q = owner then
          (items.map (parameterAs key a)).foldl (fun ms p => giveParameter name p ms) ms
        else ms
      | none => ms := by
  induction items generalizing ms with
  | nil => cases parameterPlace? inside <;> simp
  | cons i items ih =>
      obtain ⟨⟨hk, ha⟩, hrest⟩ := List.forall_mem_cons.1 h
      rw [List.foldl_cons, ih hrest]
      unfold methodsAfter
      rw [hk, ha]
      cases parameterPlace? inside with
      | none => rfl
      | some place =>
          by_cases hq : q = place.1
          · simp only [if_pos hq]
            rfl
          · simp only [if_neg hq]

/-- A function whose parameters follow it directly is a method with these parameters, if it is
one of the structure, whichever methods came before. -/
theorem foldl_methodsAfter_function
    (hk : i.declaration.kind = .method ∨ i.declaration.kind = .function)
    (h : ∀ j ∈ items, j.declaration.kind = .parameter ∧
      j.ancestors = i.ancestors ++ [i.declaration]) :
    (i :: items).foldl (methodsAfter key a q) ms =
      if i.declaration.kind = .method ∧ owner? i.ancestors = some q then
        ms ++ [{ methodAs key a i with parameters := items.map (parameterAs key a) }]
      else ms := by
  rw [List.foldl_cons, foldl_methodsAfter_parameters h, parameterPlace?_concat]
  unfold methodsAfter
  rcases hk with hk | hk
  · rw [hk, if_pos rfl]
    dsimp only
    cases ho : owner? i.ancestors with
    | none => simp
    | some owner =>
        by_cases hq : owner = q
        · rw [if_pos (by rw [hq]), if_pos ⟨rfl, by rw [hq]⟩]
          have hname : (methodAs key a i).qualifiedName = i.declaration.qualifiedName := rfl
          dsimp only [Option.map_some]
          rw [if_pos hq.symm, foldl_giveParameter hname]
          rfl
        · have hne : some owner ≠ some q := fun he => hq (Option.some.inj he)
          dsimp only [Option.map_some]
          rw [if_neg (Ne.symm hq), if_neg hne, if_neg fun he => hne he.2]
  · rw [hk]
    simp

end Fold

variable {σ : Type u} [DeclarationSource σ] {o : SurveyOptions} {src src' : σ}
  {d : Declaration} {a a' b c : Atlas} {uses : List Use} {q : String}
  {key : DeclaredType → String}

/-- Where a parameter is entered: inside a method of a structure that is known. -/
theorem parameterOwner?_eq (hon : o.modelMethods = true) (src : σ) (a : Atlas) :
    parameterOwner? o src a =
      match parameterPlace? (ancestors src) with
      | some (owner, name) =>
        if owner ∈ a.structures.keys then some (name, a.findStructure owner) else none
      | none => none := by
  unfold parameterOwner? parameterPlace?
  rw [hon]
  rcases (ancestors src).reverse with _ | ⟨method, _ | ⟨owner, rest⟩⟩
  · rfl
  · rfl
  · have hknown : (a.findStructure owner.qualifiedName).isNull = false ↔
        owner.qualifiedName ∈ a.structures.keys := Registry.isNull_find_eq_false_iff ..
    dsimp only
    by_cases hk : method.kind = .method ∧ owner.kind.isStructure = true
    · rw [if_pos hk]
      dsimp only
      by_cases hmem : owner.qualifiedName ∈ a.structures.keys
      · rw [if_pos hmem, if_pos]
        simp [hk.1, hk.2, hknown.2 hmem]
      · rw [if_neg hmem, if_neg]
        simpa [hk.1, hk.2] using fun h => hmem (hknown.1 h)
    · rw [if_neg hk, if_neg]
      intro h
      have hall : (method.kind = .method ∧ owner.kind.isStructure = true) ∧
          (a.findStructure owner.qualifiedName).isNull = false := by
        simpa using h
      exact hk hall.1

/-! ## Steps -/

theorem methods_modifyEnclosing (src : σ) {f : Structure → Structure} (ms : List Method)
    (hf : ∀ s, (f s).methods = s.methods ++ ms) :
    (modifyEnclosing src f a).membersOf (·.methods) q =
      a.membersOf (·.methods) q ++ if owner? (ancestors src) = some q then ms else [] :=
  membersOf_modifyEnclosing src (fun _ => rfl) hf

theorem Enters.methods_eq {t : DeclaredType} {calls : List Call} {h : TypeHandle}
    (he : Enters o src t a calls h b) :
    b.membersOf (·.methods) q = a.membersOf (·.methods) q :=
  he.membersOf q (fun _ => rfl) fun _ _ => rfl

/-- A step does to the methods of a structure what its item says. -/
theorem Visits.methods (hon : o.modelMethods = true) (hv : Visits o src d a uses b)
    (hkey : keyOf o src = key) (hgrows : b.Grows c) :
    b.membersOf (·.methods) q =
      methodsAfter key c q (a.membersOf (·.methods) q) (itemOf src d) := by
  have hkind : (itemOf src d).declaration.kind = d.kind := rfl
  have hancestors : (itemOf src d).ancestors = ancestors src := rfl
  unfold methodsAfter
  rw [hkind, hancestors]
  cases hv with
  | idle hi =>
      unfold IsIdle at hi
      cases hk : d.kind <;> rw [hk] at hi
      case method =>
        have hnone : owner? (ancestors src) = none := by
          simpa [entersMethod, hon] using hi
        simp [hnone]
      case parameter =>
        rw [parameterOwner?_eq hon] at hi
        cases hplace : parameterPlace? (ancestors src) with
        | none => rfl
        | some place =>
            obtain ⟨owner, name⟩ := place
            rw [hplace] at hi
            dsimp only at hi ⊢
            have hmem : owner ∉ a.structures.keys := by
              intro hmem
              rw [if_pos hmem] at hi
              cases hi
            -- A structure that is not known has no methods.
            by_cases hq : q = owner
            · rw [if_pos hq, hq, Atlas.membersOf_of_not_mem hmem, giveParameter_nil]
            · rw [if_neg hq]
  | record hk =>
      rw [visitStructure_eq, Atlas.membersOf_refine_of_same (g := fun s => s.methods) rfl]
      · rcases eq_of_isStructure hk with hd | hd
        · rw [hd]
        · rw [hd]
      · exact fun s => rfl
  | base hk =>
      rw [visitBase_eq, methods_modifyEnclosing src [] fun s => by simp [addParent],
        Atlas.membersOf_enterStructure (g := fun s => s.methods) rfl, hk]
      simp
  | field hk he =>
      rw [methods_modifyEnclosing src [] fun s => by simp [addField], he.methods_eq, hk]
      simp
  | @method a' calls h hk hm he =>
      have hh := he.findType_eq ((grows_modifyEnclosing ..).trans hgrows)
      have hmethod : methodFor src d h = methodAs key c (itemOf src d) := by
        rw [hh, hkey]
        rfl
      rw [methods_modifyEnclosing src _ fun s => rfl, he.methods_eq, hk, hmethod]
      dsimp only
      split
      · rfl
      · exact List.append_nil _
  | @parameter a' calls h name owner hk ho he =>
      have hh := he.findType_eq ((Atlas.Grows.modifyStructure ..).trans hgrows)
      have hparameter : (⟨h, d.identifier⟩ : MethodParameter) =
          parameterAs key c (itemOf src d) := by
        rw [hh, hkey]
        rfl
      rw [parameterOwner?_eq hon] at ho
      cases hplace : parameterPlace? (ancestors src) with
      | none =>
          rw [hplace] at ho
          cases ho
      | some place =>
          obtain ⟨n, name'⟩ := place
          rw [hplace] at ho
          dsimp only at ho
          by_cases hmem : n ∈ a.structures.keys
          · rw [if_pos hmem] at ho
            obtain ⟨rfl, rfl⟩ := Prod.mk.inj (Option.some.inj ho)
            have hfind : a.findStructure n = a'.findStructure n :=
              (he.grows.findStructure hmem).symm
            rw [hk, hfind, Atlas.membersOf_modifyStructure_eq
              (F := giveParameter name' ⟨h, d.identifier⟩) (he.grows.structures.mem hmem)
              fun s => methods_addParameter .., he.methods_eq, hparameter]
          · rw [if_neg hmem] at ho
            cases ho

/-! ## Runs -/

/-- The methods of a structure are what the items of a run make of them, one after another. -/
theorem Runs.methods [SteadyTypes σ] {items : List Item} (hon : o.modelMethods = true)
    (hr : Runs o src a uses a' src') (hd : Delivers src items) (hkey : keyOf o src = key)
    (hgrows : a'.Grows c) :
    a'.membersOf (·.methods) q =
      items.foldl (methodsAfter key c q) (a.membersOf (·.methods) q) := by
  apply hr.foldl hd hkey hgrows
  intro src d a us a' hv hkey hgrows
  exact hv.methods hon hkey hgrows

end DeclAtlas.Survey
