import DeclAtlas.Sequence.Buffer
import Mathlib.Data.List.Basic

/-!
# What accesses to slots secure

A computation on slots may have no result, when it leaves its buffer. Two things are to be
said of it: what its result is like, whenever there is one, and on what condition there is
one. `Secures` says both at once, so that the same steps prove them.

A buffer begins with a list when its first slots hold the list's elements. What the other
slots hold is left open, as it is by whatever moves elements about.

## Main results

* `Secures.bind`: what is secured one after another.
* `Buffer.secures_write?`, `Buffer.secures_writeAll?`, `Buffer.secures_copy?`: what is in
  the slots after an access, and that all slots it touched are there.
* `Buffer.Begins.secures_splice`: elements take the place of others, and what follows moves.
-/

universe u v w

namespace DeclAtlas

variable {α : Type u} {β : Type v} {c c' : Prop}

/-- The computation has a result if `c` holds, and any result it has is as `P` says. -/
structure Secures (c : Prop) (o : Option β) (P : β → Prop) : Prop where
  /-- On the condition there is a result. -/
  result : c → ∃ b, o = some b
  /-- Whether or not the condition holds, a result is a good one. -/
  sound : ∀ b, o = some b → P b

namespace Secures

theorem of_some {P : β → Prop} {b : β} (hb : P b) : Secures c (some b) P := by
  refine ⟨fun _ => ⟨b, rfl⟩, ?_⟩
  intro b' hb'
  obtain rfl := Option.some.inj hb'
  exact hb

theorem bind {γ : Type w} {P : β → Prop} {Q : γ → Prop} {o : Option β} {f : β → Option γ}
    (ho : Secures c o P) (hf : ∀ b, P b → Secures c (f b) Q) : Secures c (o.bind f) Q := by
  constructor
  · intro hc
    obtain ⟨b, hb⟩ := ho.result hc
    obtain ⟨g, hg⟩ := (hf b (ho.sound b hb)).result hc
    exact ⟨g, by rw [hb, Option.bind_some, hg]⟩
  · intro g hg
    obtain ⟨b, hb, hg⟩ := Option.bind_eq_some_iff.1 hg
    exact (hf b (ho.sound b hb)).sound g hg

theorem map {γ : Type w} {P : β → Prop} {Q : γ → Prop} {o : Option β} {f : β → γ}
    (ho : Secures c o P) (hf : ∀ b, P b → Q (f b)) : Secures c (o.map f) Q := by
  rw [Option.map_eq_bind]
  exact ho.bind fun b hb => of_some (hf b hb)

theorem mono {P Q : β → Prop} {o : Option β} (ho : Secures c o P) (h : ∀ b, P b → Q b) :
    Secures c o Q :=
  ⟨ho.result, fun b hb => h b (ho.sound b hb)⟩

/-- A condition may be replaced by one that it follows from. -/
theorem of_imp {P : β → Prop} {o : Option β} (ho : Secures c o P) (h : c' → c) :
    Secures c' o P :=
  ⟨fun hc => ho.result (h hc), ho.sound⟩

/-- A result that is certain. -/
theorem exists_eq {P : β → Prop} {o : Option β} (ho : Secures c o P) (hc : c) :
    ∃ b, o = some b ∧ P b := by
  obtain ⟨b, hb⟩ := ho.result hc
  exact ⟨b, hb, ho.sound b hb⟩

end Secures

namespace Buffer

variable {b source : Buffer α} {i start count : Nat} {x : α} {xs : List α}

theorem secures_read? (hi : c → i < b.size) (hx : b.slot i = some x) :
    Secures c (b.read? i) (· = x) := by
  unfold read?
  constructor
  · intro hc
    exact ⟨x, by rw [if_pos (hi hc), hx]⟩
  · intro y hy
    split at hy
    · exact Option.some.inj (hy.symm.trans hx)
    · exact nomatch hy

theorem secures_write? (x : α) (hi : c → i < b.size) :
    Secures c (b.write? i x) fun b' => b'.size = b.size ∧ i < b.size ∧
      ∀ k, b'.slot k = if k = i then some x else b.slot k := by
  unfold write?
  split
  · rename_i hlt
    exact Secures.of_some ⟨rfl, hlt, fun _ => rfl⟩
  · rename_i hge
    exact ⟨fun hc => absurd (hi hc) hge, fun _ hb => nomatch hb⟩

theorem secures_copy? (hin : c → start + count ≤ source.size) (hout : c → i + count ≤ b.size) :
    Secures c (b.copy? i source start count) fun b' => b'.size = b.size ∧
      start + count ≤ source.size ∧ i + count ≤ b.size ∧
      ∀ k, b'.slot k =
        if i ≤ k ∧ k < i + count then source.slot (start + (k - i)) else b.slot k := by
  unfold copy?
  split
  · rename_i hle
    exact Secures.of_some ⟨rfl, hle.1, hle.2, fun _ => rfl⟩
  · rename_i hgt
    exact ⟨fun hc => absurd ⟨hin hc, hout hc⟩ hgt, fun _ hb => nomatch hb⟩

theorem secures_writeAll? (xs : List α) (hi : c → i + xs.length ≤ b.size) :
    Secures c (b.writeAll? i xs) fun b' => b'.size = b.size ∧
      (xs = [] ∨ i + xs.length ≤ b.size) ∧
      ∀ k, b'.slot k = if i ≤ k ∧ k < i + xs.length then xs[k - i]? else b.slot k := by
  induction xs generalizing b i with
  | nil =>
    refine Secures.of_some ⟨rfl, Or.inl rfl, fun k => ?_⟩
    rw [if_neg]
    simp only [List.length_nil]
    omega
  | cons x xs ih =>
    rw [List.length_cons] at hi
    refine (secures_write? x fun hc => by have := hi hc; omega).bind ?_
    rintro b₁ ⟨hsize₁, hlt, hslot₁⟩
    refine (ih fun hc => by have := hi hc; omega).mono ?_
    rintro b₂ ⟨hsize₂, hfit, hslot₂⟩
    refine ⟨hsize₂.trans hsize₁, Or.inr ?_, fun k => ?_⟩
    · rcases hfit with rfl | hfit
      · simp only [List.length_cons, List.length_nil]
        omega
      · rw [List.length_cons]
        omega
    · rw [hslot₂, hslot₁, List.length_cons]
      rcases Nat.lt_trichotomy k i with hk | rfl | hk
      · rw [if_neg (by omega), if_neg (by omega), if_neg (by omega)]
      · rw [if_neg (by omega), if_pos rfl, if_pos (by omega), Nat.sub_self]
        rfl
      · have hsub : k - i = (k - (i + 1)) + 1 := by omega
        have hne : ¬ k = i := by omega
        rw [if_neg hne, hsub, List.getElem?_cons_succ]
        by_cases hin : k < i + (xs.length + 1)
        · rw [if_pos (by omega), if_pos (by omega)]
        · rw [if_neg (by omega), if_neg (by omega)]

/-! ## What a buffer begins with -/

/-- The first slots of the buffer hold the elements of `xs`. -/
structure Begins (b : Buffer α) (xs : List α) : Prop where
  fits : xs.length ≤ b.size
  slot : ∀ i < xs.length, b.slot i = xs[i]?

variable {ys : List α} {stop : Nat}

theorem begins_nil (b : Buffer α) : b.Begins [] :=
  ⟨Nat.zero_le _, fun _ hi => absurd hi (Nat.not_lt_zero _)⟩

theorem Begins.slot_eq (h : b.Begins xs) (hx : xs[i]? = some x) : b.slot i = some x := by
  rw [h.slot i (List.getElem?_eq_some_iff.1 hx).1, hx]

theorem Begins.take (h : b.Begins xs) (k : Nat) : b.Begins (xs.take k) := by
  have hle : (xs.take k).length ≤ xs.length := by
    rw [List.length_take]
    omega
  constructor
  · exact Nat.le_trans hle h.fits
  · intro i hi
    have hik : i < k := by
      rw [List.length_take] at hi
      omega
    rw [List.getElem?_take_of_lt hik]
    exact h.slot i (Nat.lt_of_lt_of_le hi hle)

/-- Elements written into the first slots replace those that were there. -/
theorem Begins.secures_writeAll? (h : b.Begins xs) (hi : i ≤ xs.length) (ys : List α)
    (hroom : c → i + ys.length ≤ b.size) :
    Secures c (b.writeAll? i ys) fun b' => b'.size = b.size ∧
      b'.Begins (xs.take i ++ ys ++ xs.drop (i + ys.length)) := by
  have hfits := h.fits
  refine (Buffer.secures_writeAll? ys hroom).mono ?_
  rintro b' ⟨hsize, hwritten, hslot⟩
  have hend : i + ys.length ≤ b.size := by
    rcases hwritten with rfl | hwritten
    · exact Nat.le_trans hi hfits
    · exact hwritten
  have htake : (xs.take i).length = i := List.length_take_of_le hi
  have hlen : (xs.take i ++ ys ++ xs.drop (i + ys.length)).length =
      i + ys.length + (xs.length - (i + ys.length)) := by
    rw [List.length_append, List.length_append, htake, List.length_drop]
  refine ⟨hsize, ?_, ?_⟩
  · rw [hlen, hsize]
    omega
  · intro k hk
    rw [hlen] at hk
    rw [hslot, List.append_assoc]
    by_cases hbefore : k < i
    · rw [if_neg (by omega), List.getElem?_append_left (by omega),
        List.getElem?_take_of_lt hbefore, h.slot k (by omega)]
    · rw [List.getElem?_append_right (by omega), htake]
      by_cases hin : k - i < ys.length
      · rw [if_pos (by omega), List.getElem?_append_left hin]
      · have hback : i + ys.length + (k - i - ys.length) = k := by omega
        rw [if_neg (by omega), List.getElem?_append_right (by omega), List.getElem?_drop, hback,
          h.slot k (by omega)]

@[simp] theorem writeAll?_singleton (b : Buffer α) (i : Nat) (x : α) :
    b.writeAll? i [x] = b.write? i x :=
  Option.bind_fun_some (b.write? i x)

theorem Begins.secures_write? (h : b.Begins xs) (hi : i ≤ xs.length) (x : α)
    (hroom : c → i < b.size) :
    Secures c (b.write? i x) fun b' => b'.size = b.size ∧
      b'.Begins (xs.take i ++ [x] ++ xs.drop (i + 1)) := by
  have hwrite := h.secures_writeAll? hi [x] hroom
  rwa [writeAll?_singleton] at hwrite

/-- What follows position `stop` is moved behind room for `ys` from position `start` on, and
`ys` is written there: so `ys` takes the place of what was between the two. -/
theorem Begins.secures_splice (h : b.Begins xs) (hle : start ≤ stop) (hstop : stop ≤ xs.length)
    (ys : List α) (hroom : c → start + ys.length + (xs.length - stop) ≤ b.size) :
    Secures c (do
      let b' ← b.copy? (start + ys.length) b stop (xs.length - stop)
      b'.writeAll? start ys) fun b' => b'.size = b.size ∧
        b'.Begins (xs.take start ++ ys ++ xs.drop stop) := by
  have hfits := h.fits
  have hin : stop + (xs.length - stop) ≤ b.size := by omega
  refine (Buffer.secures_copy? (fun _ => hin) hroom).bind ?_
  rintro b₁ ⟨hsize₁, -, hout, hslot₁⟩
  refine (Buffer.secures_writeAll? ys fun _ => by omega).mono ?_
  rintro b₂ ⟨hsize₂, -, hslot₂⟩
  have htake : (xs.take start).length = start := List.length_take_of_le (by omega)
  have hlen : (xs.take start ++ ys ++ xs.drop stop).length =
      start + ys.length + (xs.length - stop) := by
    rw [List.length_append, List.length_append, htake, List.length_drop]
  refine ⟨hsize₂.trans hsize₁, ?_, ?_⟩
  · rw [hlen, hsize₂, hsize₁]
    exact hout
  · intro k hk
    rw [hlen] at hk
    rw [hslot₂, hslot₁, List.append_assoc]
    by_cases hbefore : k < start
    · rw [if_neg (by omega), if_neg (by omega), List.getElem?_append_left (by omega),
        List.getElem?_take_of_lt hbefore, h.slot k (by omega)]
    · rw [List.getElem?_append_right (by omega), htake]
      by_cases hnew : k - start < ys.length
      · rw [if_pos (by omega), List.getElem?_append_left hnew]
      · have hback : stop + (k - (start + ys.length)) = stop + (k - start - ys.length) := by omega
        rw [if_neg (by omega), if_pos (by omega), List.getElem?_append_right (by omega),
          List.getElem?_drop, hback, h.slot _ (by omega)]

theorem insertIdx_eq_take_append_drop (xs : List α) (x : α) (hi : i ≤ xs.length) :
    xs.insertIdx i x = xs.take i ++ [x] ++ xs.drop i := by
  induction i generalizing xs with
  | zero => rfl
  | succ i ih =>
    cases xs with
    | nil => exact absurd hi (Nat.not_succ_le_zero i)
    | cons y ys =>
      rw [List.insertIdx_succ_cons, ih ys (Nat.le_of_succ_le_succ hi)]
      rfl

/-- One element is put in. -/
theorem Begins.secures_open (h : b.Begins xs) (hi : i ≤ xs.length) (x : α)
    (hroom : c → xs.length < b.size) :
    Secures c (do
      let b' ← b.copy? (i + 1) b i (xs.length - i)
      b'.write? i x) fun b' => b'.size = b.size ∧ b'.Begins (xs.insertIdx i x) := by
  have hone : c → i + [x].length + (xs.length - i) ≤ b.size := by
    intro hc
    have hlt := hroom hc
    rw [List.length_singleton]
    omega
  have hsplice := h.secures_splice (Nat.le_refl i) hi [x] hone
  simp only [writeAll?_singleton, List.length_singleton] at hsplice
  rwa [insertIdx_eq_take_append_drop xs x hi]

/-- Elements are taken out, and what follows them closes up. -/
theorem Begins.secures_close (h : b.Begins xs) (hle : start ≤ stop) (hstop : stop ≤ xs.length) :
    Secures c (b.copy? start b stop (xs.length - stop)) fun b' => b'.size = b.size ∧
      b'.Begins (xs.take start ++ xs.drop stop) := by
  have hfits := h.fits
  have hsplice := h.secures_splice (c := c) hle hstop [] fun _ => by
    rw [List.length_nil]
    omega
  rw [List.append_nil] at hsplice
  have hcopy : ((b.copy? start b stop (xs.length - stop)).bind fun b' => b'.writeAll? start []) =
      b.copy? start b stop (xs.length - stop) :=
    Option.bind_fun_some _
  exact hcopy ▸ hsplice

/-- The first slots copied to another buffer. -/
theorem Begins.secures_copy? (h : source.Begins xs) (hroom : c → xs.length ≤ b.size) :
    Secures c (b.copy? 0 source 0 xs.length) fun b' => b'.size = b.size ∧ b'.Begins xs := by
  have hin : 0 + xs.length ≤ source.size := by
    rw [Nat.zero_add]
    exact h.fits
  have hout : c → 0 + xs.length ≤ b.size := by
    intro hc
    rw [Nat.zero_add]
    exact hroom hc
  refine (Buffer.secures_copy? (fun _ => hin) hout).mono ?_
  rintro b' ⟨hsize, -, hfits, hslot⟩
  rw [Nat.zero_add] at hfits
  refine ⟨hsize, ?_, ?_⟩
  · rw [hsize]
    exact hfits
  · intro k hk
    rw [hslot, if_pos (by omega), Nat.sub_zero, Nat.zero_add, h.slot k hk]

end Buffer

end DeclAtlas
