import Mathlib.Data.List.Basic

/-!
# Lib.Seek

A search that counts what it comes by, and stops at a number with `p`. The counter is passed on, so
that one list can be searched behind another.

* `seek_append` — one list behind another.
* `seek_of_none`, `seek_of_first` — where it stops.
-/

namespace Lib

variable {α : Type*} {p : Nat → Prop} [DecidablePred p] {l l' : List α} {num i : Nat}

/-- What the search stops at, if anything, and the counter then. -/
def seek (p : Nat → Prop) [DecidablePred p] : List α → Nat → Option α × Nat
  | [], num => (none, num)
  | x :: l, num => if p (num + 1) then (some x, num + 1) else seek p l (num + 1)

theorem seek_append : seek p (l ++ l') num =
    if (seek p l num).1.isSome then seek p l num else seek p l' (seek p l num).2 := by
  induction l generalizing num with
  | nil => rfl
  | cons x l ih =>
    rw [List.cons_append, seek, seek]
    by_cases hp : p (num + 1)
    · rw [if_pos hp, if_pos hp]
      rfl
    · rw [if_neg hp, if_neg hp, ih]

theorem seek_of_none (h : ∀ i < l.length, ¬ p (num + i + 1)) :
    seek p l num = (none, num + l.length) := by
  induction l generalizing num with
  | nil => rfl
  | cons x l ih =>
    rw [seek, if_neg (h 0 (Nat.zero_lt_succ _)), ih, List.length_cons]
    · rw [Nat.add_assoc, Nat.add_comm 1]
    · intro i hi
      have hnext := h (i + 1) (Nat.succ_lt_succ hi)
      rw [← Nat.add_assoc, Nat.add_right_comm num i 1] at hnext
      exact hnext

theorem seek_of_first (hi : i < l.length) (hp : p (num + i + 1))
    (h : ∀ j < i, ¬ p (num + j + 1)) : seek p l num = (l[i]?, num + i + 1) := by
  induction l generalizing num i with
  | nil => cases hi
  | cons x l ih =>
    cases i with
    | zero =>
      rw [seek, if_pos hp]
      rfl
    | succ i =>
      rw [seek, if_neg (h 0 (Nat.zero_lt_succ i)), ih (Nat.lt_of_succ_lt_succ hi)]
      · rw [List.getElem?_cons_succ]
        congr 2
        omega
      · rw [Nat.add_right_comm num 1 i, Nat.add_assoc num i 1]
        exact hp
      · intro j hj
        rw [Nat.add_right_comm num 1 j, Nat.add_assoc num j 1]
        exact h (j + 1) (Nat.succ_lt_succ hj)

end Lib
