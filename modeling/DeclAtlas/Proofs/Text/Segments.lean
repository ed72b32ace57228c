import DeclAtlas.Text.Segment
import Mathlib.Data.List.Infix

/-!
# The last segment of a name

A name that was put inside a scope is its own last segment again, unless there is a `::` in
it already: a last segment never reaches over one.

## Main results

* `lastSegment_qualify`, `lastSegment_eq_self`: names without `::`.
* `lastSegment_qualify_ne`, `lastSegment_ne_self`: names with one.
-/

namespace DeclAtlas.Text

variable {best cs xs ys : List Char} {outer inner name : String}

theorem lastSegmentFrom_of_not_infix (h : ¬[':', ':'] <:+: cs) :
    lastSegmentFrom best cs = best := by
  induction cs with
  | nil => rfl
  | cons c cs ih =>
      cases cs with
      | nil => rfl
      | cons d rest =>
          have hne : ¬(c = ':' ∧ d = ':') := by
            rintro ⟨rfl, rfl⟩
            exact h ⟨[], rest, rfl⟩
          rw [lastSegmentFrom, if_neg hne]
          exact ih fun hin => h (hin.trans (List.suffix_cons c _).isInfix)

/-- What stands before a `::` does not matter. -/
theorem lastSegmentFrom_append (best xs ys : List Char) :
    lastSegmentFrom best (xs ++ ':' :: ':' :: ys) = lastSegmentFrom ys (':' :: ys) := by
  induction xs generalizing best with
  | nil => rw [List.nil_append, lastSegmentFrom, if_pos ⟨rfl, rfl⟩]
  | cons x xs ih =>
      obtain ⟨d, rest, hrest⟩ : ∃ d rest, xs ++ ':' :: ':' :: ys = d :: rest := by
        cases xs with
        | nil => exact ⟨_, _, rfl⟩
        | cons y xs => exact ⟨_, _, rfl⟩
      rw [List.cons_append, hrest, lastSegmentFrom, ← hrest]
      exact ih _

theorem length_lastSegmentFrom_lt (h : [':', ':'] <:+: cs) (best : List Char) :
    (lastSegmentFrom best cs).length < cs.length := by
  induction cs generalizing best with
  | nil => exact absurd (List.infix_nil.1 h) (List.cons_ne_nil _ _)
  | cons c cs ih =>
      cases cs with
      | nil => exact absurd h.length_le (by simp)
      | cons d rest =>
          rw [lastSegmentFrom]
          by_cases hin : [':', ':'] <:+: d :: rest
          · exact Nat.lt_succ_of_lt (ih hin _)
          · -- The pair is at the front, so what follows it is the last segment.
            have hfront : c = ':' ∧ d = ':' := by
              rcases List.infix_cons_iff.1 h with hpre | hsuf
              · obtain ⟨t, ht⟩ := hpre
                obtain ⟨hc, ht⟩ := List.cons.inj ht
                exact ⟨hc.symm, (List.cons.inj ht).1.symm⟩
              · exact absurd hsuf hin
            rw [if_pos hfront, lastSegmentFrom_of_not_infix hin, List.length_cons,
              List.length_cons]
            omega

theorem toList_qualify (outer inner : String) :
    (qualify outer inner).toList = outer.toList ++ ':' :: ':' :: inner.toList := by
  simp [qualify]

/-- A name without `::` is its own last segment. -/
theorem lastSegment_eq_self (h : ¬"::".toList <:+: name.toList) : lastSegment name = name := by
  rw [lastSegment, lastSegmentFrom_of_not_infix h, String.ofList_toList]

/-- A name without `::` is the last segment wherever it stands, unless it begins with a
colon. -/
theorem lastSegment_qualify (h : ¬"::".toList <:+: ':' :: inner.toList) (outer : String) :
    lastSegment (qualify outer inner) = inner := by
  rw [lastSegment, toList_qualify, lastSegmentFrom_append, lastSegmentFrom_of_not_infix h,
    String.ofList_toList]

theorem lastSegment_ne_self (h : "::".toList <:+: name.toList) : lastSegment name ≠ name := by
  intro heq
  have hlt := length_lastSegmentFrom_lt h name.toList
  have hlist := congrArg String.toList heq
  rw [lastSegment, String.toList_ofList] at hlist
  rw [hlist] at hlt
  exact Nat.lt_irrefl _ hlt

/-- A name with a `::` in it is never a last segment. -/
theorem lastSegment_qualify_ne (h : "::".toList <:+: inner.toList) (outer : String) :
    lastSegment (qualify outer inner) ≠ inner := by
  intro heq
  have hlist := congrArg String.toList heq
  rw [lastSegment, toList_qualify, lastSegmentFrom_append, String.toList_ofList] at hlist
  cases hinner : inner.toList with
  | nil =>
      rw [hinner] at h
      exact absurd (List.infix_nil.1 h) (by decide)
  | cons d rest =>
      rw [hinner] at h hlist
      rw [lastSegmentFrom] at hlist
      have hlt := length_lastSegmentFrom_lt h (if ':' = ':' ∧ d = ':' then rest else d :: rest)
      rw [hlist] at hlt
      exact Nat.lt_irrefl _ hlt

end DeclAtlas.Text
