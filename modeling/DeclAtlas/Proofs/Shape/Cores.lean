import DeclAtlas.Shape.Basic

/-!
# Replacing the core of a shape

What replaces a core goes inside the layers around it. Only what becomes of the core matters,
replacing twice is replacing once, and a const put around a shape can wait until its core is
replaced.

## Main results

* `mapNamed_congr`: only what becomes of the core matters.
* `exists_core`: the core and the layers of what has its core replaced.
* `mapNamed_withConst`: a const can be put around a shape before or after.
-/

namespace DeclAtlas.Shape

variable {s t : Shape} {f : String → Bool → Shape}

/-- Only what becomes of the core matters. -/
theorem mapNamed_congr {g : String → Bool → Shape}
    (h : ∀ n c, s.named? = some n → f n c = g n c) : s.mapNamed f = s.mapNamed g := by
  induction s with
  | named n c => exact h n c rfl
  | verbatim => rfl
  | pointer s c ih => rw [mapNamed, mapNamed, ih h]
  | lValueRef s ih => rw [mapNamed, mapNamed, ih h]
  | rValueRef s ih => rw [mapNamed, mapNamed, ih h]
  | array s e ih => rw [mapNamed, mapNamed, ih h]

theorem mapNamed_eq_self (h : ∀ n c, s.named? = some n → f n c = named n c) :
    s.mapNamed f = s :=
  (mapNamed_congr h).trans (mapNamed_named s)

theorem mapNamed_mapNamed (s : Shape) (f g : String → Bool → Shape) :
    (s.mapNamed f).mapNamed g = s.mapNamed fun n c => (f n c).mapNamed g := by
  induction s with
  | named | verbatim => rfl
  | pointer s c ih => rw [mapNamed, mapNamed, mapNamed, ih]
  | lValueRef s ih => rw [mapNamed, mapNamed, mapNamed, ih]
  | rValueRef s ih => rw [mapNamed, mapNamed, mapNamed, ih]
  | array s e ih => rw [mapNamed, mapNamed, mapNamed, ih]

theorem inner?_mapNamed (h : s.inner? = some t) (f : String → Bool → Shape) :
    (s.mapNamed f).inner? = some (t.mapNamed f) := by
  cases s with
  | named | verbatim => exact nomatch h
  | pointer | lValueRef | rValueRef | array => exact Option.some.inj h ▸ rfl

theorem named?_inner (h : s.inner? = some t) : s.named? = t.named? := by
  cases s with
  | named | verbatim => exact nomatch h
  | pointer | lValueRef | rValueRef | array => exact Option.some.inj h ▸ rfl

/-- What replaces a core goes inside the layers around it. -/
theorem exists_core {a : String} (h : s.named? = some a) :
    ∃ c, ∀ f : String → Bool → Shape, (s.mapNamed f).named? = (f a c).named? ∧
      (s.mapNamed f).dimensions = s.dimensions + (f a c).dimensions := by
  have hstep : ∀ {s t : Shape} {a c}, s.inner? = some t →
      (∀ f : String → Bool → Shape, (t.mapNamed f).named? = (f a c).named? ∧
        (t.mapNamed f).dimensions = t.dimensions + (f a c).dimensions) →
      ∀ f : String → Bool → Shape, (s.mapNamed f).named? = (f a c).named? ∧
        (s.mapNamed f).dimensions = s.dimensions + (f a c).dimensions := by
    intro s t a c hi ht f
    obtain ⟨hname, hlayers⟩ := ht f
    have hi' := inner?_mapNamed hi f
    refine ⟨(named?_inner hi').trans hname, ?_⟩
    rw [dimensions_inner hi', dimensions_inner hi, hlayers]
    omega
  induction s with
  | named n c =>
      obtain rfl := Option.some.inj h
      exact ⟨c, fun f => ⟨rfl, (Nat.zero_add _).symm⟩⟩
  | verbatim => exact nomatch h
  | pointer s c ih | lValueRef s ih | rValueRef s ih | array s e ih =>
      obtain ⟨c', hc⟩ := ih h
      exact ⟨c', hstep rfl hc⟩

/-! ## Consts around a shape -/

theorem withConst_withConst (s : Shape) (c c' : Bool) :
    (s.withConst c).withConst c' = s.withConst (c || c') := by
  induction s with
  | named n d => rw [withConst, withConst, withConst, Bool.or_assoc]
  | pointer s d => rw [withConst, withConst, withConst, Bool.or_assoc]
  | array s e ih => rw [withConst, withConst, withConst, ih]
  | lValueRef | rValueRef | verbatim => rfl

theorem named?_withConst (s : Shape) (c : Bool) : (s.withConst c).named? = s.named? := by
  induction s with
  | array s e ih => exact ih
  | named | pointer | lValueRef | rValueRef | verbatim => rfl

theorem dimensions_withConst (s : Shape) (c : Bool) :
    (s.withConst c).dimensions = s.dimensions := by
  induction s with
  | array s e ih => exact congrArg (· + 1) ih
  | named | pointer | lValueRef | rValueRef | verbatim => rfl

/-- A const can be put around a shape before or after its core is replaced, if what replaces
the core takes it over. -/
theorem mapNamed_withConst (hf : ∀ n c c', f n (c || c') = (f n c).withConst c') (s : Shape)
    (c : Bool) : (s.withConst c).mapNamed f = (s.mapNamed f).withConst c := by
  induction s with
  | named n d => exact hf n d c
  | array s e ih => rw [withConst, mapNamed, mapNamed, withConst, ih]
  | pointer | lValueRef | rValueRef | verbatim => rfl

end DeclAtlas.Shape
