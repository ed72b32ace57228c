import DeclAtlas.Proofs.Text.Words
import DeclAtlas.Shape.FunctionType
import Mathlib.Data.List.DropRight

/-!
# Signatures

Behind the parameters of a function type stand its qualifiers, one word each but for one:
`noexcept` can have a condition in parentheses. Whoever reads a function type looks for the
last closing parenthesis and takes what it closes for the parameters. How the parentheses
inside are nested does not matter, since those of a balanced text cancel out in either
direction.

With a condition among the qualifiers it is the condition that is taken for the parameters.
The type is then cut behind that `noexcept`, and the qualifiers before it stay with the
return type.

## Main results

* `dropParameters?_append_of_balances`: counted from the back, a balanced text changes no depth.
* `split?_of_group`: the last group of a text is what it is split at.
* `split?_of_conditional`: with a condition among the qualifiers, the last one is that group.
* `split?_eq_iff`: the return type is found exactly if no qualifier has a condition.
-/

namespace DeclAtlas.FunctionType

open Text

/-! ## Balanced parentheses -/

/-- Does a text close the `depth` parentheses that are open before it, and all that it opens
itself? -/
def balances : Nat → List Char → Bool
  | depth, [] => depth == 0
  | depth, c :: cs =>
    if c = '(' then balances (depth + 1) cs
    else if c = ')' then
      match depth with
      | 0 => false
      | depth + 1 => balances depth cs
    else balances depth cs

/-- The parentheses of the text balance. -/
def Balanced (text : String) : Prop := balances 0 text.toList = true

instance : DecidablePred Balanced := fun _ => inferInstanceAs (Decidable (_ = true))

variable {cs ds : List Char} {P Q R e : String}

/-- What a text closes beyond what it opens is what is met from behind. -/
theorem dropParameters?_append_of_balances {opened : Nat} (h : balances opened cs = true)
    (depth : Nat) (rest : List Char) :
    dropParameters? depth (cs.reverse ++ rest) = dropParameters? (depth + opened) rest := by
  induction cs generalizing opened rest with
  | nil =>
      have hzero : opened = 0 := by simpa [balances] using h
      rw [hzero]
      rfl
  | cons c cs ih =>
      rw [List.reverse_cons, List.append_assoc, List.singleton_append]
      rw [balances.eq_def] at h
      dsimp only at h
      split at h
      · rename_i hopen
        rw [ih h, hopen]
        rfl
      · rename_i hopen
        split at h
        · rename_i hclose
          cases opened with
          | zero => exact absurd h Bool.false_ne_true
          | succ opened =>
              rw [ih h, hclose]
              rfl
        · rename_i hclose
          rw [ih h, dropParameters?.eq_def]
          dsimp only
          rw [if_neg hclose, if_neg hopen]

theorem splitAtClose?_append (h : ')' ∉ cs) (ds : List Char) :
    splitAtClose? (cs ++ ')' :: ds) = some (cs, ds) := by
  induction cs with
  | nil => rfl
  | cons c cs ih =>
      obtain ⟨hc, hcs⟩ := not_or.1 (mt List.mem_cons.2 h)
      rw [List.cons_append, splitAtClose?, if_neg (Ne.symm hc), ih hcs]
      rfl

/-- A text is split at its last group of parentheses, whatever is nested inside of that. -/
theorem split?_of_group (front : String) (he : Balanced e) {back : String}
    (hback : ')' ∉ back.toList) :
    split? (front ++ "(" ++ e ++ ")" ++ back) = some (trim front, trim back) := by
  have hreverse : (front ++ "(" ++ e ++ ")" ++ back).toList.reverse =
      back.toList.reverse ++ ')' :: (e.toList.reverse ++ '(' :: front.toList.reverse) := by
    simp [String.toList_append]
  have hclose : splitAtClose? (front ++ "(" ++ e ++ ")" ++ back).toList.reverse =
      some (back.toList.reverse, e.toList.reverse ++ '(' :: front.toList.reverse) := by
    rw [hreverse]
    exact splitAtClose?_append (by simpa using hback) _
  have hopen : dropParameters? 0 (e.toList.reverse ++ '(' :: front.toList.reverse) =
      some front.toList.reverse :=
    dropParameters?_append_of_balances he 0 _
  unfold split?
  rw [hclose]
  show (dropParameters? 0 _).bind _ = _
  rw [hopen]
  show some (String.ofList (trimChars front.toList.reverse.reverse),
    String.ofList (trimChars back.toList.reverse.reverse)) = _
  rw [List.reverse_reverse, List.reverse_reverse]
  rfl

/-! ## Qualifiers -/

/-- What can stand behind the parameters of a function type. -/
inductive Qualifier where
  | const
  | volatile
  /-- `&` -/
  | lvalue
  /-- `&&` -/
  | rvalue
  | noexcept
  /-- `noexcept` with a condition. -/
  | noexceptIf (condition : String)
deriving DecidableEq

namespace Qualifier

def text : Qualifier → List Char
  | const => "const".toList
  | volatile => "volatile".toList
  | lvalue => "&".toList
  | rvalue => "&&".toList
  | noexcept => "noexcept".toList
  | noexceptIf condition => "noexcept(".toList ++ condition.toList ++ ")".toList

def condition? : Qualifier → Option String
  | noexceptIf condition => some condition
  | _ => none

variable {q : Qualifier} {qs ps rs : List Qualifier}

theorem isWord_text (h : q.condition? = none) : IsWord q.text := by
  cases q with
  | noexceptIf condition => exact nomatch h
  | _ => exact ⟨by decide, by decide⟩

theorem close_not_mem_text (h : q.condition? = none) : ')' ∉ q.text := by
  cases q with
  | noexceptIf condition => exact nomatch h
  | _ => decide

theorem text_eq_const_iff (h : q.condition? = none) :
    q.text = "const".toList ↔ q = const := by
  cases q with
  | noexceptIf condition => exact nomatch h
  | _ => decide

/-- Either no qualifier has a condition, or one of them is the last that has one. -/
theorem conditions_cases (qs : List Qualifier) :
    (∀ q ∈ qs, q.condition? = none) ∨
      ∃ ps e rs, qs = ps ++ noexceptIf e :: rs ∧ ∀ q ∈ rs, q.condition? = none := by
  induction qs with
  | nil => exact .inl (by simp)
  | cons q qs ih =>
      rcases ih with hnone | ⟨ps, e, rs, rfl, hrs⟩
      · cases q with
        | noexceptIf e => exact .inr ⟨[], e, qs, rfl, hnone⟩
        | _ => exact .inl (List.forall_mem_cons.2 ⟨rfl, hnone⟩)
      · exact .inr ⟨q :: ps, e, rs, rfl, hrs⟩

end Qualifier

/-- The text lists these qualifiers: each has blanks before it, if any, and a blank or the
end of the text behind it. -/
inductive Lists : List Qualifier → List Char → Prop
  | nil {blanks : List Char} (hblanks : ∀ c ∈ blanks, isBlank c = true) : Lists [] blanks
  | cons {q : Qualifier} {qs : List Qualifier} {blanks rest : List Char}
      (hblanks : ∀ c ∈ blanks, isBlank c = true) (hrest : Lists qs rest)
      (hgap : ∀ c ∈ rest.head?, isBlank c = true) :
      Lists (q :: qs) (blanks ++ (q.text ++ rest))

namespace Lists

variable {q : Qualifier} {qs ps rs : List Qualifier}

/-- Without conditions, the words of the list are the qualifiers. -/
theorem words (h : Lists qs cs) (hqs : ∀ q ∈ qs, q.condition? = none) :
    Text.words cs = qs.map Qualifier.text := by
  induction h with
  | nil hblanks =>
      have h := words_append_of_blanks hblanks []
      rwa [List.append_nil] at h
  | @cons q qs blanks rest hblanks hrest hgap ih =>
      obtain ⟨hq, hqs⟩ := List.forall_mem_cons.1 hqs
      rw [words_append_of_blanks hblanks, List.map_cons, ← ih hqs]
      cases rest with
      | nil =>
          rw [List.append_nil, words_word (Qualifier.isWord_text hq)]
          rfl
      | cons c rest =>
          have hc : isBlank c = true := hgap c rfl
          rw [words_word_blank (Qualifier.isWord_text hq) hc, words_blank hc]

/-- Only conditions have parentheses. -/
theorem close_not_mem (h : Lists qs cs) (hqs : ∀ q ∈ qs, q.condition? = none) : ')' ∉ cs := by
  have hblank : ∀ {cs : List Char}, (∀ c ∈ cs, isBlank c = true) → ')' ∉ cs :=
    fun hcs hmem => absurd (hcs _ hmem) (by decide)
  induction h with
  | nil hblanks => exact hblank hblanks
  | cons hblanks hrest hgap ih =>
      obtain ⟨hq, hqs⟩ := List.forall_mem_cons.1 hqs
      rw [List.mem_append, List.mem_append, not_or, not_or]
      exact ⟨hblank hblanks, Qualifier.close_not_mem_text hq, ih hqs⟩

/-- A list can be taken apart at each of its qualifiers. -/
theorem exists_of_append (h : Lists (ps ++ q :: rs) cs) :
    ∃ front back, cs = front ++ (q.text ++ back) ∧ Lists rs back := by
  induction ps generalizing cs with
  | nil =>
      cases h with
      | @cons _ _ blanks rest hblanks hrest hgap => exact ⟨blanks, rest, rfl, hrest⟩
  | cons p ps ih =>
      cases h with
      | @cons _ _ blanks rest hblanks hrest hgap =>
          obtain ⟨front, back, rfl, hback⟩ := ih hrest
          refine ⟨blanks ++ (p.text ++ front), back, ?_, hback⟩
          simp only [List.append_assoc]

/-- Qualifiers with one space before each are a list of them. -/
theorem of_spaces (qs : List Qualifier) : Lists qs (qs.flatMap fun q => ' ' :: q.text) := by
  induction qs with
  | nil => exact .nil (by simp)
  | cons q qs ih =>
      have hspace : ∀ c ∈ [' '], isBlank c = true := by decide
      refine .cons hspace ih ?_
      cases qs with
      | nil => simp
      | cons p ps =>
          rintro c ⟨⟩
          decide

/-- The word `const` is in a list without conditions exactly if that qualifier is. -/
theorem const_mem_words (h : Lists qs cs) (hqs : ∀ q ∈ qs, q.condition? = none) :
    "const".toList ∈ Text.words (trimChars cs) ↔ Qualifier.const ∈ qs := by
  rw [words_trimChars, h.words hqs, List.mem_map]
  constructor
  · rintro ⟨q, hq, htext⟩
    rwa [← (Qualifier.text_eq_const_iff (hqs q hq)).1 htext]
  · exact fun hq => ⟨_, hq, rfl⟩

end Lists

/-! ## Splitting -/

section Splitting

variable {qs ps rs : List Qualifier}

/-- Without conditions a function type is split at its parameters. -/
theorem split?_of_unconditional (R : String) (hP : Balanced P) (hQ : Lists qs Q.toList)
    (hqs : ∀ q ∈ qs, q.condition? = none) :
    split? (R ++ "(" ++ P ++ ")" ++ Q) = some (trim R, trim Q) :=
  split?_of_group R hP (hQ.close_not_mem hqs)

/-- With conditions a function type is split at the last of them. -/
theorem split?_of_conditional (R P : String) (hQ : Lists (ps ++ .noexceptIf e :: rs) Q.toList)
    (he : Balanced e) (hrs : ∀ q ∈ rs, q.condition? = none) :
    ∃ front back, Q = front ++ "noexcept(" ++ e ++ ")" ++ back ∧ Lists rs back.toList ∧
      split? (R ++ "(" ++ P ++ ")" ++ Q) =
        some (trim (R ++ "(" ++ P ++ ")" ++ front ++ "noexcept"), trim back) := by
  obtain ⟨front, back, hcs, hback⟩ := hQ.exists_of_append
  have hQ' : Q = String.ofList front ++ "noexcept(" ++ e ++ ")" ++ String.ofList back := by
    apply String.toList_inj.1
    rw [hcs]
    unfold Qualifier.text
    simp only [String.toList_append, String.toList_ofList, List.append_assoc]
  have hback' : Lists rs (String.ofList back).toList := by rwa [String.toList_ofList]
  have hopen : ')' ∉ (String.ofList back).toList := hback'.close_not_mem hrs
  have hsplit := split?_of_group (R ++ "(" ++ P ++ ")" ++ String.ofList front ++ "noexcept") he
    hopen
  refine ⟨_, _, hQ', hback', ?_⟩
  rw [← hsplit, hQ']
  congr 1
  rw [← String.toList_inj]
  simp [String.toList_append]

/-- What goes on behind a text and ends in a letter is longer than that text, trimmed or not. -/
theorem trim_ne_of_append (R middle : String) :
    trim (R ++ "(" ++ middle ++ "noexcept") ≠ trim R := by
  have hlonger : trim (R ++ "(" ++ middle ++ "noexcept") =
      String.ofList (trimStart R.toList ++ '(' :: (middle.toList ++ "noexcept".toList)) := by
    unfold trim trimChars
    congr 1
    rw [String.toList_append, String.toList_append, String.toList_append, List.append_assoc,
      List.append_assoc]
    show trimEnd (trimStart (R.toList ++ '(' :: (middle.toList ++ "noexcept".toList))) = _
    rw [trimStart_append_cons (by decide)]
    refine trimEnd_eq_self fun c hc => ?_
    have hlast : "noexcept".toList <:+
        trimStart R.toList ++ '(' :: (middle.toList ++ "noexcept".toList) :=
      ⟨trimStart R.toList ++ '(' :: middle.toList, by simp⟩
    rw [getLast?_of_suffix hlast (by decide)] at hc
    cases hc
    decide
  intro heq
  rw [hlonger, trim, String.ofList_inj] at heq
  have hless := (trimEnd_isPrefix (trimStart R.toList)).length_le
  rw [← trimChars, ← heq, List.length_append, List.length_cons] at hless
  omega

/-- The return type and the qualifiers are found exactly if no qualifier has a condition. -/
theorem split?_eq_iff (R : String) (hP : Balanced P) (hQ : Lists qs Q.toList)
    (hconditions : ∀ q ∈ qs, ∀ e ∈ q.condition?, Balanced e) :
    split? (R ++ "(" ++ P ++ ")" ++ Q) = some (trim R, trim Q) ↔
      ∀ q ∈ qs, q.condition? = none := by
  refine ⟨fun hsplit => ?_, split?_of_unconditional R hP hQ⟩
  rcases Qualifier.conditions_cases qs with hnone | ⟨ps, e, rs, rfl, hrs⟩
  · exact hnone
  · have he : Balanced e := hconditions (.noexceptIf e) (by simp) e rfl
    obtain ⟨front, back, -, -, hcut⟩ := split?_of_conditional R P hQ he hrs
    have hreturn : trim (R ++ "(" ++ P ++ ")" ++ front ++ "noexcept") = trim R :=
      (Prod.mk.inj (Option.some.inj (hcut.symm.trans hsplit))).1
    refine absurd ?_ (trim_ne_of_append R (P ++ ")" ++ front))
    rw [← hreturn]
    simp only [String.append_assoc]

end Splitting

end DeclAtlas.FunctionType
