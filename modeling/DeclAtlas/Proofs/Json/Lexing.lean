import DeclAtlas.Json.Printer
import DeclAtlas.Json.Reader
import Mathlib.Data.List.Basic
import Mathlib.Data.List.TakeWhile
import Mathlib.Tactic.SplitIfs

/-!
# Cutting written text into tokens

A written text is cut into tokens again, each where it was written. What a token is may hang
on what follows it, and only for numbers: a digit more would be a part of it. So the front of
a text is cut into its tokens either whatever follows, or provided that a break follows,
which is anything but a character of numbers. Everything else that is written here brings its
own end.

## Main results

* `textOf_pieces`: an escaped text spells the text it was before.
* `Tokens.tokens?_eq`: the length of a text is enough fuel for its tokens.
* `lexes_quote`, `lexesAtBreak_number`: strings and numbers as single tokens.
* `isNumber_toDigits`: a whole number is written as a number.
-/

namespace DeclAtlas.Json

/-- The tokens of a text, each read off the front of what the one before it leaves. -/
inductive Tokens : List Char → List Token → Prop where
  | nil : Tokens [] []
  | space {c : Char} {cs : List Char} {ts : List Token} (hc : isSpace c = true)
      (h : Tokens cs ts) : Tokens (c :: cs) ts
  | token {c : Char} {cs rest : List Char} {t : Token} {ts : List Token}
      (hc : isSpace c = false) (ht : takeToken? c cs = some (t, rest))
      (h : Tokens rest ts) : Tokens (c :: cs) (t :: ts)

variable {c : Char} {cs ds rest : List Char} {t : Token} {ts us : List Token}

/-! ## Strings -/

/-- What a written character is read as: a control without a letter is a unit. -/
def pieceOf (c : Char) : Piece :=
  if c.toNat < 0x20 ∧ c ∉ ['\n', '\r', '\t', '\x08', '\x0c'] then .unit c.toNat else .char c

/-- Two zeros and two digits spell any control. -/
theorem hexUnit?_control {n : Nat} (hn : n < 0x20) :
    hexUnit? '0' '0' (hexDigit (n / 16)) (hexDigit (n % 16)) = some n := by
  revert n
  decide

theorem takeString_unescaped (hc : ¬c.toNat < 0x20) (hquote : c ≠ '"') (hslash : c ≠ '\\')
    (done : List Piece) (rest : List Char) :
    takeString done (c :: rest) = takeString (.char c :: done) rest := by
  rw [takeString]
  · rw [if_neg (not_or.2 ⟨hc, hslash⟩)]
  · exact hquote
  · exact fun _ _ _ _ _ h _ => hslash h
  · exact fun _ _ h _ => hslash h

theorem takeString_escapeChar (done : List Piece) (c : Char) (rest : List Char) :
    takeString done (escapeChar c ++ rest) = takeString (pieceOf c :: done) rest := by
  unfold escapeChar
  split_ifs with hquote hslash hn hr ht hb hf hcontrol
  · subst hquote; rfl
  · subst hslash; rfl
  · subst hn; rfl
  · subst hr; rfl
  · subst ht; rfl
  · subst hb; rfl
  · subst hf; rfl
  · have hpiece : pieceOf c = .unit c.toNat := by simp [pieceOf, *]
    rw [hpiece]
    show takeString done ('\\' :: 'u' :: '0' :: '0' :: hexDigit (c.toNat / 16) ::
      hexDigit (c.toNat % 16) :: rest) = _
    rw [takeString, hexUnit?_control hcontrol]
  · have hpiece : pieceOf c = .char c := by simp [pieceOf, hcontrol]
    rw [hpiece]
    exact takeString_unescaped hcontrol hquote hslash done rest

theorem takeString_escaped (done : List Piece) (cs rest : List Char) :
    takeString done (cs.flatMap escapeChar ++ '"' :: rest) =
      some (done.reverse ++ cs.map pieceOf, rest) := by
  induction cs generalizing done with
  | nil => simp [takeString]
  | cons c cs ih =>
      rw [List.flatMap_cons, List.append_assoc, takeString_escapeChar, ih]
      simp

theorem textOf_pieceOf (c : Char) (pieces : List Piece) :
    textOf (pieceOf c :: pieces) = (textOf pieces).map (c :: ·) := by
  unfold pieceOf
  split
  · rename_i hc
    have hbelow : c.toNat < 0xD800 := by omega
    rw [textOf.eq_def]
    dsimp only
    rw [if_pos (Or.inl hbelow), Char.ofNat_toNat]
  · rw [textOf]

/-- An escaped text spells the text it was before. -/
theorem textOf_pieces (cs : List Char) : textOf (cs.map pieceOf) = some cs := by
  induction cs with
  | nil => rfl
  | cons c cs ih => rw [List.map_cons, textOf_pieceOf, ih, Option.map_some]

/-! ## Numbers -/

theorem isNumberChar_of_isDigit (hc : c.isDigit = true) : isNumberChar c = true := by
  simp [isNumberChar, hc]

theorem isNumberChar_of_dropDigits? (hd : dropDigits? cs = some rest)
    (hrest : ∀ c ∈ rest, isNumberChar c = true) : ∀ c ∈ cs, isNumberChar c = true := by
  cases cs with
  | nil => exact nomatch hd
  | cons d cs =>
      simp only [dropDigits?, Option.ite_none_right_eq_some, Option.some.injEq] at hd
      obtain ⟨hdigit, rfl⟩ := hd
      intro c hc
      rcases List.mem_cons.1 hc with rfl | hc
      · exact isNumberChar_of_isDigit hdigit
      · rw [← List.takeWhile_append_dropWhile (p := Char.isDigit) (l := cs)] at hc
        rcases List.mem_append.1 hc with hc | hc
        · exact isNumberChar_of_isDigit (List.mem_takeWhile_imp hc)
        · exact hrest c hc

/-- A number without its sign. -/
def unsigned : List Char → List Char
  | '-' :: rest => rest
  | cs => cs

/-- A number begins with a sign or a digit, and more of its characters follow. -/
theorem integer_of_isNumber (h : isNumber cs = true) : ∃ rest,
    (unsigned cs = '0' :: rest ∨ dropDigits? (unsigned cs) = some rest) ∧
      ∀ c ∈ rest, isNumberChar c = true := by
  simp only [isNumber, decide_eq_true_eq] at h
  obtain ⟨cs₂, hfraction, hexponent⟩ := Option.bind_eq_some_iff.1 h
  obtain ⟨cs₁, hinteger, hfraction⟩ := Option.bind_eq_some_iff.1 hfraction
  -- The parts are taken off from the front, so their characters are found from the end.
  have h₂ : ∀ c ∈ cs₂, isNumberChar c = true := by
    have hnil : ∀ c ∈ ([] : List Char), isNumberChar c = true := by simp
    cases cs₂ with
    | nil => exact hnil
    | cons e digits =>
        dsimp only at hexponent
        have he : e = 'e' ∨ e = 'E' := by
          by_contra hne
          rw [if_neg hne] at hexponent
          exact nomatch hexponent
        rw [if_pos he] at hexponent
        have hletter : isNumberChar e = true := by rcases he with rfl | rfl <;> rfl
        refine List.forall_mem_cons.2 ⟨hletter, ?_⟩
        cases digits with
        | nil => exact hnil
        | cons sign digits =>
            dsimp only at hexponent
            split_ifs at hexponent with hsign
            · have hchar : isNumberChar sign = true := by rcases hsign with rfl | rfl <;> rfl
              exact List.forall_mem_cons.2
                ⟨hchar, isNumberChar_of_dropDigits? hexponent hnil⟩
            · exact isNumberChar_of_dropDigits? hexponent hnil
  have h₁ : ∀ c ∈ cs₁, isNumberChar c = true := by
    split at hfraction
    · exact List.forall_mem_cons.2 ⟨rfl, isNumberChar_of_dropDigits? hfraction h₂⟩
    · cases hfraction
      exact h₂
  refine ⟨cs₁, ?_, h₁⟩
  split at hinteger
  · rename_i hzero
    cases hinteger
    exact Or.inl hzero
  · exact Or.inr hinteger

theorem eq_unsigned (cs : List Char) : cs = '-' :: unsigned cs ∨ cs = unsigned cs := by
  unfold unsigned
  split
  · exact Or.inl rfl
  · exact Or.inr rfl

/-- A number is made of the characters of numbers. -/
theorem isNumberChar_of_isNumber (h : isNumber cs = true) :
    ∀ c ∈ cs, isNumberChar c = true := by
  obtain ⟨rest, hinteger, hrest⟩ := integer_of_isNumber h
  have hall : ∀ c ∈ unsigned cs, isNumberChar c = true := by
    rcases hinteger with hzero | hdigits
    · rw [hzero]
      exact List.forall_mem_cons.2 ⟨rfl, hrest⟩
    · exact isNumberChar_of_dropDigits? hdigits hrest
  rcases eq_unsigned cs with hcs | hcs
  · rw [hcs]
    exact List.forall_mem_cons.2 ⟨rfl, hall⟩
  · rwa [hcs]

theorem head_of_isNumber (h : isNumber (c :: cs) = true) : c = '-' ∨ c.isDigit = true := by
  obtain ⟨rest, hinteger, -⟩ := integer_of_isNumber h
  rcases eq_unsigned (c :: cs) with hcs | hcs
  · exact Or.inl (List.cons.inj hcs).1
  · right
    rw [← hcs] at hinteger
    rcases hinteger with hzero | hdigits
    · exact (List.cons.inj hzero).1 ▸ rfl
    · simp only [dropDigits?, Option.ite_none_right_eq_some] at hdigits
      exact hdigits.1

/-- Whole numbers other than zero do not begin with a zero. -/
theorem head_toDigits {n : Nat} (hn : n ≠ 0) : (Nat.toDigits 10 n).head? ≠ some '0' := by
  induction n using Nat.strongRecOn with
  | ind n ih =>
      rcases Nat.lt_or_ge n 10 with hlt | hge
      · rw [Nat.toDigits_of_lt_base hlt]
        have hdigits : ∀ k : Nat, k < 10 → k ≠ 0 → k.digitChar ≠ '0' := by decide
        simpa using hdigits n hlt hn
      · obtain ⟨c, cs, hcs⟩ := List.exists_cons_of_ne_nil
          (Nat.toDigits_ne_nil (n := n / 10) (b := 10))
        have hrest := ih (n / 10) (by omega) (by omega)
        rw [Nat.toDigits_of_base_le (by decide) hge, hcs]
        rwa [hcs] at hrest

/-- A whole number is written as a number. -/
theorem isNumber_toDigits (n : Nat) : isNumber (Nat.toDigits 10 n) = true := by
  by_cases hn : n = 0
  · subst hn; decide
  · have hdigits : ∀ c ∈ Nat.toDigits 10 n, c.isDigit = true := fun c hc =>
      Nat.isDigit_of_mem_toDigits (b := 10) (by decide) (by decide) hc
    have hhead := head_toDigits hn
    cases hcs : Nat.toDigits 10 n with
    | nil => exact absurd hcs Nat.toDigits_ne_nil
    | cons c cs =>
        rw [hcs] at hdigits hhead
        have hc : c ≠ '0' := fun he => hhead (by rw [he]; rfl)
        have hminus : c ≠ '-' := fun he => by
          have hdigit := hdigits c (List.mem_cons_self ..)
          rw [he] at hdigit
          exact absurd hdigit (by decide)
        have hdrop : dropDigits? (c :: cs) = some [] := by
          have hrest : cs.dropWhile Char.isDigit = [] :=
            List.dropWhile_eq_nil_iff.2 fun d hd => hdigits d (List.mem_cons_of_mem _ hd)
          simp [dropDigits?, hdigits c (List.mem_cons_self ..), hrest]
        simp [isNumber, hc, hminus, hdrop]
/-! ## Tokens -/

theorem length_takeString {done : List Piece} {r : List Piece × List Char}
    (h : takeString done cs = some r) : r.2.length ≤ cs.length := by
  fun_induction takeString done cs with
  | case1 => exact nomatch h
  | case2 done rest =>
      cases h
      exact Nat.le_succ _
  | case3 done a b c d rest n hn ih => exact (ih h).trans (by simp only [List.length_cons]; omega)
  | case4 => exact nomatch h
  | case5 done c rest _ _ _ ih => exact (ih h).trans (by simp only [List.length_cons]; omega)
  | case6 => exact nomatch h
  | case7 => exact nomatch h
  | case8 done c rest _ _ _ _ ih => exact (ih h).trans (Nat.le_succ _)

/-- What follows a token is no longer than what followed its first character. -/
theorem length_takeToken? (h : takeToken? c cs = some (t, rest)) :
    rest.length ≤ cs.length := by
  have hword : ∀ {word : List Char} {u : Token},
      (word.isPrefixOf? cs).map (u, ·) = some (t, rest) → rest.length ≤ cs.length := by
    intro word u hw
    obtain ⟨r, hr, he⟩ := Option.map_eq_some_iff.1 hw
    cases he
    rw [← List.isPrefixOf?_eq_some_iff_append_eq.1 hr, List.length_append]
    exact Nat.le_add_left ..
  unfold takeToken? at h
  split at h
  case h_7 =>
    obtain ⟨r, hr, he⟩ := Option.map_eq_some_iff.1 h
    cases he
    exact length_takeString hr
  case h_8 | h_9 | h_10 => exact hword h
  case h_11 =>
    dsimp only at h
    split at h
    · cases h
      exact (List.dropWhile_suffix _).length_le
    · exact nomatch h
  all_goals
    cases h
    exact Nat.le_refl _

theorem Tokens.tokensFrom_eq (h : Tokens cs ts) {fuel : Nat} (hf : cs.length ≤ fuel)
    (done : List Token) : tokensFrom fuel done cs = some (done.reverse ++ ts) := by
  induction h generalizing fuel done with
  | nil => simp [tokensFrom]
  | space hc h ih =>
      cases fuel with
      | zero => exact absurd hf (by simp)
      | succ fuel =>
          rw [tokensFrom, if_pos hc]
          exact ih (by simpa using hf) done
  | token hc ht h ih =>
      cases fuel with
      | zero => exact absurd hf (by simp)
      | succ fuel =>
          have hlength := length_takeToken? ht
          have hfuel : _ ≤ fuel := hlength.trans (Nat.le_of_succ_le_succ hf)
          have hrest := ih hfuel
          simp [tokensFrom, hc, ht, hrest]

/-- The length of a text is enough fuel for its tokens. -/
theorem Tokens.tokens?_eq (h : Tokens cs ts) : tokens? cs = some ts :=
  h.tokensFrom_eq (Nat.le_refl _) []

/-! ## Fronts -/

/-- Whatever follows, `cs` is cut into `ts` first. -/
def Lexes (cs : List Char) (ts : List Token) : Prop :=
  ∀ ⦃rest us⦄, Tokens rest us → Tokens (cs ++ rest) (ts ++ us)

/-- No number goes on here. -/
def IsBreak (rest : List Char) : Prop := ∀ c ∈ rest.head?, isNumberChar c = false

/-- Wherever a break follows, `cs` is cut into `ts` first. -/
def LexesAtBreak (cs : List Char) (ts : List Token) : Prop :=
  ∀ ⦃rest us⦄, IsBreak rest → Tokens rest us → Tokens (cs ++ rest) (ts ++ us)

theorem Lexes.atBreak (h : Lexes cs ts) : LexesAtBreak cs ts := fun _ _ _ hrest => h hrest

theorem Lexes.nil : Lexes [] [] := fun _ _ hrest => hrest

theorem Lexes.append (h : Lexes cs ts) (h' : Lexes ds us) : Lexes (cs ++ ds) (ts ++ us) := by
  intro rest vs hrest
  rw [List.append_assoc, List.append_assoc]
  exact h (h' hrest)

theorem Lexes.append_atBreak (h : Lexes cs ts) (h' : LexesAtBreak ds us) :
    LexesAtBreak (cs ++ ds) (ts ++ us) := by
  intro rest vs hbreak hrest
  rw [List.append_assoc, List.append_assoc]
  exact h (h' hbreak hrest)

theorem LexesAtBreak.append (h : LexesAtBreak cs ts) (h' : Lexes (c :: ds) us)
    (hc : isNumberChar c = false) : Lexes (cs ++ c :: ds) (ts ++ us) := by
  intro rest vs hrest
  rw [List.append_assoc, List.append_assoc]
  exact h (fun _ hd => Option.some.inj hd ▸ hc) (h' hrest)

/-- A character that is a token of its own. -/
theorem lexes_mark (hc : isSpace c = false)
    (ht : ∀ rest, takeToken? c rest = some (t, rest)) : Lexes [c] [t] :=
  fun rest _ hrest => .token hc (ht rest) hrest

theorem lexes_spaces (h : ∀ c ∈ cs, isSpace c = true) : Lexes cs [] := by
  induction cs with
  | nil => exact .nil
  | cons c cs ih =>
      intro rest us hrest
      obtain ⟨hc, hcs⟩ := List.forall_mem_cons.1 h
      exact .space hc (ih hcs hrest)

theorem lexes_null : Lexes "null".toList [.null] :=
  fun _ _ hrest => .token rfl rfl hrest

theorem lexes_bool (b : Bool) :
    Lexes (if b then "true" else "false").toList [.bool b] := by
  cases b
  · exact fun _ _ hrest => .token rfl rfl hrest
  · exact fun _ _ hrest => .token rfl rfl hrest

/-- A quoted text is a token whatever follows. -/
theorem lexes_quote (s : String) : Lexes (quote s).toList [.string (some s)] := by
  intro rest us hrest
  have htoken : takeToken? '"' (s.toList.flatMap escapeChar ++ '"' :: rest) =
      some (.string (some s), rest) := by
    simp [takeToken?, takeString_escaped, textOf_pieces]
  have htext : (quote s).toList ++ rest =
      '"' :: (s.toList.flatMap escapeChar ++ '"' :: rest) := by
    simp [quote]
  rw [htext]
  exact .token rfl htoken hrest

theorem takeToken?_number (h : isNumber (c :: cs) = true) (hrest : IsBreak rest) :
    takeToken? c (cs ++ rest) = some (.number (String.ofList (c :: cs)), rest) := by
  have hcs : ∀ d ∈ cs, isNumberChar d = true :=
    fun d hd => isNumberChar_of_isNumber h d (List.mem_cons_of_mem _ hd)
  have htake : (cs ++ rest).takeWhile isNumberChar = cs := by
    rw [List.takeWhile_append_of_pos hcs]
    cases rest with
    | nil => simp
    | cons d rest => simp [hrest d rfl]
  have hdrop : (cs ++ rest).dropWhile isNumberChar = rest := by
    rw [List.dropWhile_append_of_pos hcs]
    cases rest with
    | nil => rfl
    | cons d rest => simp [hrest d rfl]
  have hhead := head_of_isNumber h
  unfold takeToken?
  split
  case h_11 =>
    dsimp only
    rw [htake, hdrop, if_pos h]
  all_goals exact absurd hhead (by decide)

/-- A number is a token where a break follows. -/
theorem lexesAtBreak_number {lexeme : String} (h : isNumber lexeme.toList = true) :
    LexesAtBreak lexeme.toList [.number lexeme] := by
  intro rest us hbreak hrest
  cases hcs : lexeme.toList with
  | nil =>
      rw [hcs] at h
      exact nomatch h
  | cons c cs =>
      rw [hcs] at h
      have hc : isSpace c = false := by
        refine Bool.eq_false_iff.2 fun hspace => ?_
        have hhead := head_of_isNumber h
        simp only [isSpace, Bool.or_eq_true, beq_iff_eq] at hspace
        rcases hspace with ((rfl | rfl) | rfl) | rfl
        all_goals exact absurd hhead (by decide)
      have htoken := takeToken?_number h hbreak
      rw [← hcs, String.ofList_toList] at htoken
      exact .token hc htoken hrest

end DeclAtlas.Json
