import DeclAtlas.Proofs.Json.Lexing
import Mathlib.Data.List.Nodup
import Mathlib.Data.Option.Basic

/-!
# Reading what was written

A value that JSON can spell is read back from its indented form as it was, to the digits of
its numbers and the order of its members. JSON can spell a value if its numbers are numbers
and its strings are texts; that no object of it names a member twice is asked for as well,
for then it does not matter which of two members a reader takes.

The writer adds to the text before it and the reader takes from the front, so both are
followed along the front of the text: while a value is written the tokens of the front become
those with the tokens of the value, and these, whatever containers are open, put the value
together again.

## Main results

* `lexesAtBreak_writePretty`: what writing a value does to the tokens of the text.
* `run?_tokens`: what the machine makes of the tokens of a value.
* `parse?_pretty`, `pretty_injective`: what is written is read back, so no two values are
  written alike.
-/

namespace DeclAtlas.Json

open Value

/-! ## Fronts as they are written -/

variable {out : String} {ts : List Token} {t : Token} {c : Char}

theorem toList_newLine (level : Nat) (out : String) :
    (newLine level out).toList = out.toList ++ '\n' :: List.replicate (2 * level) ' ' := by
  simp [newLine]

theorem lexes_line (level : Nat) : Lexes ('\n' :: List.replicate (2 * level) ' ') [] := by
  refine lexes_spaces (List.forall_mem_cons.2 ⟨rfl, fun c hc => ?_⟩)
  rw [List.eq_of_mem_replicate hc]
  rfl

theorem Lexes.newLine (h : Lexes out.toList ts) (level : Nat) :
    Lexes (newLine level out).toList ts := by
  rw [toList_newLine, ← List.append_nil ts]
  exact h.append (lexes_line level)

theorem LexesAtBreak.newLine (h : LexesAtBreak out.toList ts) (level : Nat) :
    Lexes (newLine level out).toList ts := by
  rw [toList_newLine, ← List.append_nil ts]
  exact h.append (lexes_line level) rfl

theorem Lexes.push (h : Lexes out.toList ts) (hc : Lexes [c] [t]) :
    Lexes (out.push c).toList (ts ++ [t]) := by
  rw [String.toList_push]
  exact h.append hc

theorem LexesAtBreak.push (h : LexesAtBreak out.toList ts) (hc : Lexes [c] [t])
    (hbreak : isNumberChar c = false) : Lexes (out.push c).toList (ts ++ [t]) := by
  rw [String.toList_push]
  exact h.append hc hbreak

theorem lexes_openBracket : Lexes ['['] [.openBracket] := lexes_mark rfl fun _ => rfl

theorem lexes_closeBracket : Lexes [']'] [.closeBracket] := lexes_mark rfl fun _ => rfl

theorem lexes_openBrace : Lexes ['\x7b'] [.openBrace] := lexes_mark rfl fun _ => rfl

theorem lexes_closeBrace : Lexes ['\x7d'] [.closeBrace] := lexes_mark rfl fun _ => rfl

theorem lexes_comma : Lexes [','] [.comma] := lexes_mark rfl fun _ => rfl

theorem lexes_colon : Lexes ": ".toList [.colon] :=
  fun _ _ hrest => .token rfl rfl (.space rfl hrest)

theorem Lexes.key (h : Lexes out.toList ts) {key : Option String} (hk : key.isSome = true) :
    Lexes (out ++ quote? key ++ ": ").toList (ts ++ [.string key, .colon]) := by
  obtain ⟨s, rfl⟩ := Option.isSome_iff_exists.1 hk
  have hkey := (h.append (lexes_quote s)).append lexes_colon
  simpa [quote?] using hkey

namespace Value

/-! ## Values that JSON can spell -/

/-- Numbers are numbers, strings and keys are texts, and no object has a key twice. -/
inductive WellFormed : Value → Prop where
  | null : WellFormed null
  | bool (b : Bool) : WellFormed (bool b)
  | number {lexeme : String} (h : isNumber lexeme.toList = true) : WellFormed (number lexeme)
  | text (s : String) : WellFormed (text s)
  | array {items : List Value} (h : ∀ v ∈ items, WellFormed v) : WellFormed (array items)
  | object {members : List (Option String × Value)} (hkeys : ∀ p ∈ members, p.1.isSome = true)
      (hdistinct : (members.map Prod.fst).Nodup) (h : ∀ p ∈ members, WellFormed p.2) :
      WellFormed (object members)

theorem WellFormed.nat (n : Nat) : (Value.nat n).WellFormed := by
  refine .number ?_
  show isNumber n.repr.toList = true
  rw [Nat.toList_repr]
  exact isNumber_toDigits n

theorem WellFormed.record {members : List (String × Value)}
    (hdistinct : (members.map Prod.fst).Nodup) (h : ∀ p ∈ members, p.2.WellFormed) :
    (Value.record members).WellFormed := by
  have hkeys : (members.map fun p => (some p.1, p.2)).map Prod.fst =
      (members.map Prod.fst).map some := by
    rw [List.map_map, List.map_map]
    rfl
  refine .object ?_ ?_ ?_
  · exact List.forall_mem_map.2 fun _ _ => rfl
  · rw [hkeys]
    exact hdistinct.map (Option.some_injective _)
  · exact List.forall_mem_map.2 h

/-! ## The tokens of a value -/

mutual

/-- The tokens of a value. -/
def tokens : Value → List Token
  | null => [.null]
  | bool b => [.bool b]
  | number lexeme => [.number lexeme]
  | string s => [.string s]
  | array [] => [.openBracket, .closeBracket]
  | array (v :: rest) => .openBracket :: (tokens v ++ itemTokens rest ++ [.closeBracket])
  | object [] => [.openBrace, .closeBrace]
  | object ((key, v) :: rest) =>
    .openBrace :: .string key :: .colon :: (tokens v ++ memberTokens rest ++ [.closeBrace])

/-- The tokens of the items after the first. -/
def itemTokens : List Value → List Token
  | [] => []
  | v :: rest => .comma :: (tokens v ++ itemTokens rest)

/-- The tokens of the members after the first. -/
def memberTokens : List (Option String × Value) → List Token
  | [] => []
  | (key, v) :: rest => .comma :: .string key :: .colon :: (tokens v ++ memberTokens rest)

end

/-! ## Writing -/

/-- Where the front `out` has the tokens `ts`, the front with `v` has those of `v` as well. -/
def Writes (v : Value) : Prop :=
  ∀ level ⦃out ts⦄, Lexes out.toList ts →
    LexesAtBreak (v.writePretty level out).toList (ts ++ v.tokens)

variable {v : Value} {out : String} {ts : List Token}

theorem lexesAtBreak_writeItemsPretty {items : List Value} (hw : ∀ v ∈ items, v.Writes)
    (level : Nat) (h : LexesAtBreak out.toList ts) :
    LexesAtBreak (writeItemsPretty level out items).toList (ts ++ itemTokens items) := by
  induction items generalizing out ts with
  | nil => simpa [writeItemsPretty, itemTokens] using h
  | cons v rest ih =>
      obtain ⟨hv, hrest⟩ := List.forall_mem_cons.1 hw
      have hcomma := (h.push lexes_comma rfl).newLine level
      simpa [writeItemsPretty, itemTokens] using ih hrest (hv level hcomma)

theorem lexesAtBreak_writeMembersPretty {members : List (Option String × Value)}
    (hkeys : ∀ p ∈ members, p.1.isSome = true) (hw : ∀ p ∈ members, p.2.Writes) (level : Nat)
    (h : LexesAtBreak out.toList ts) :
    LexesAtBreak (writeMembersPretty level out members).toList (ts ++ memberTokens members) := by
  induction members generalizing out ts with
  | nil => simpa [writeMembersPretty, memberTokens] using h
  | cons p rest ih =>
      obtain ⟨key, v⟩ := p
      obtain ⟨hkey, hkeys⟩ := List.forall_mem_cons.1 hkeys
      obtain ⟨hv, hrest⟩ := List.forall_mem_cons.1 hw
      have hcomma := ((h.push lexes_comma rfl).newLine level).key hkey
      simpa [writeMembersPretty, memberTokens] using ih hkeys hrest (hv level hcomma)

/-- A well-formed value is written as its tokens. -/
theorem lexesAtBreak_writePretty (hv : v.WellFormed) : v.Writes := by
  induction hv with
  | null =>
      intro level out ts h
      simpa [writePretty, tokens] using (h.append lexes_null).atBreak
  | bool b =>
      intro level out ts h
      simpa [writePretty, tokens] using (h.append (lexes_bool b)).atBreak
  | number hn =>
      intro level out ts h
      simpa [writePretty, tokens] using h.append_atBreak (lexesAtBreak_number hn)
  | text s =>
      intro level out ts h
      simpa [writePretty, tokens, text, quote?] using (h.append (lexes_quote s)).atBreak
  | @array items _ ih =>
      intro level out ts h
      cases items with
      | nil =>
          have hclosed := (h.push lexes_openBracket).push lexes_closeBracket
          simpa [writePretty, tokens] using hclosed.atBreak
      | cons v rest =>
          obtain ⟨hv, hrest⟩ := List.forall_mem_cons.1 ih
          have hopen := (h.push lexes_openBracket).newLine (level + 1)
          have hitems := lexesAtBreak_writeItemsPretty hrest (level + 1) (hv (level + 1) hopen)
          have hclosed := (hitems.newLine level).push lexes_closeBracket
          simpa [writePretty, tokens] using hclosed.atBreak
  | @object members hkeys _ _ ih =>
      intro level out ts h
      cases members with
      | nil =>
          have hclosed := (h.push lexes_openBrace).push lexes_closeBrace
          simpa [writePretty, tokens] using hclosed.atBreak
      | cons p rest =>
          obtain ⟨key, v⟩ := p
          obtain ⟨hkey, hkeys⟩ := List.forall_mem_cons.1 hkeys
          obtain ⟨hv, hrest⟩ := List.forall_mem_cons.1 ih
          have hopen := ((h.push lexes_openBrace).newLine (level + 1)).key hkey
          have hmembers :=
            lexesAtBreak_writeMembersPretty hkeys hrest (level + 1) (hv (level + 1) hopen)
          have hclosed := (hmembers.newLine level).push lexes_closeBrace
          simpa [writePretty, tokens] using hclosed.atBreak

/-- The tokens of the indented form are those of the value. -/
theorem tokens?_pretty (hv : v.WellFormed) : tokens? v.pretty.toList = some v.tokens := by
  have hfront : Lexes "".toList [] := Lexes.nil
  have hend : IsBreak [] := fun _ hc => nomatch hc
  have hall := lexesAtBreak_writePretty hv 0 hfront hend .nil
  simpa [pretty] using hall.tokens?_eq

/-! ## Reading -/

/-- Wherever a value is awaited, the tokens of `v` put `v` together. -/
def Reads (v : Value) : Prop :=
  ∀ stack ts, run? (.value stack) (v.tokens ++ ts) = run? (.done v stack) ts

theorem run?_cons (s : State) (t : Token) (ts : List Token) :
    run? s (t :: ts) = (step? s t).bind (run? · ts) := by
  simp [run?]

/-- No value begins with the end of an array. -/
theorem run?_arrayStart (v : Value) (stack : List Frame) (ts : List Token) :
    run? (.arrayStart stack) (v.tokens ++ ts) =
      run? (.value (.array [] :: stack)) (v.tokens ++ ts) := by
  cases v with
  | array items => cases items <;> simp [tokens, run?_cons, step?]
  | object members => rcases members with _ | ⟨⟨_, _⟩, _⟩ <;> simp [tokens, run?_cons, step?]
  | _ => simp [tokens, run?_cons, step?]

theorem run?_itemTokens {items : List Value} (hr : ∀ v ∈ items, v.Reads) (v : Value)
    (done : List Value) (stack : List Frame) (ts : List Token) :
    run? (.done v (.array done :: stack)) (itemTokens items ++ .closeBracket :: ts) =
      run? (.done (.array (done.reverse ++ v :: items)) stack) ts := by
  induction items generalizing v done with
  | nil => simp [itemTokens, run?_cons, step?]
  | cons w rest ih =>
      obtain ⟨hw, hrest⟩ := List.forall_mem_cons.1 hr
      simp [itemTokens, run?_cons, step?, hw _ _, ih hrest]

theorem run?_memberTokens {members : List (Option String × Value)}
    (hr : ∀ p ∈ members, p.2.Reads) (key : Option String) (v : Value)
    (done : List (Option String × Value)) (stack : List Frame) (ts : List Token) :
    run? (.done v (.object done key :: stack)) (memberTokens members ++ .closeBrace :: ts) =
      run? (.done (.object (done.reverse ++ (key, v) :: members)) stack) ts := by
  induction members generalizing key v done with
  | nil => simp [memberTokens, run?_cons, step?]
  | cons p rest ih =>
      obtain ⟨k, w⟩ := p
      obtain ⟨hw, hrest⟩ := List.forall_mem_cons.1 hr
      simp [memberTokens, run?_cons, step?, hw _ _, ih hrest]

/-- The tokens of a value put it together again. -/
theorem run?_tokens (hv : v.WellFormed) : v.Reads := by
  induction hv with
  | null | bool | number | text =>
      intro stack ts
      simp [tokens, text, run?_cons, step?, begin?]
  | @array items _ ih =>
      intro stack ts
      cases items with
      | nil => simp [tokens, run?_cons, step?, begin?]
      | cons v rest =>
          obtain ⟨hv, hrest⟩ := List.forall_mem_cons.1 ih
          simp [tokens, run?_cons, run?_arrayStart, hv _ _, run?_itemTokens hrest]
  | @object members _ _ _ ih =>
      intro stack ts
      cases members with
      | nil => simp [tokens, run?_cons, step?, begin?]
      | cons p rest =>
          obtain ⟨key, v⟩ := p
          obtain ⟨hv, hrest⟩ := List.forall_mem_cons.1 ih
          simp [tokens, run?_cons, step?, begin?, hv _ _, run?_memberTokens hrest]

/-! ## Both -/

/-- What is written is read back. -/
theorem parse?_pretty (hv : v.WellFormed) : parse? v.pretty = some v := by
  have hrun : run? (.value []) v.tokens = some (.done v []) := by
    simpa [run?] using run?_tokens hv [] []
  unfold parse? parseChars?
  rw [tokens?_pretty hv, Option.bind_some, hrun]

/-- No two values are written alike. -/
theorem pretty_injective {w : Value} (hv : v.WellFormed) (hw : w.WellFormed)
    (h : v.pretty = w.pretty) : v = w := by
  have hread := parse?_pretty hv
  rw [h, parse?_pretty hw] at hread
  exact (Option.some.inj hread).symm

end Value

end DeclAtlas.Json
