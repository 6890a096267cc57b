import Mathlib.Algebra.Order.Ring.Nat
import Mathlib.Data.List.Nodup

/-!
# Lib.Slice

Contiguous parts of lists.

* `flatMap_range_getElem` — looking up one index after the other gives a slice, also from a
  negative index on.
* `filter_eq_take_iff` — a filter keeps a first part of a list without duplicates if and only if
  whatever it keeps has only kept elements before it.
-/

namespace Lib

variable {α : Type*}

/-- The elements at `start`, …, `start + n - 1`, as far as there are any. -/
def slice (l : List α) (start : Int) (n : Nat) : List α :=
  (l.drop start.toNat).take (n + min start 0).toNat

theorem flatMap_range_getElem (l : List α) (start : Int) (n : Nat) :
    ((List.range n).flatMap fun i : Nat =>
      if 0 ≤ start + i then (l[(start + i).toNat]?).toList else []) = slice l start n := by
  induction n with
  | zero =>
    have h0 : (((0 : Nat) : Int) + min start 0).toNat = 0 := by omega
    rw [slice, h0]
    rfl
  | succ n ih =>
    rw [List.range_succ, List.flatMap_append, ih, List.flatMap_singleton, slice, slice]
    by_cases h : 0 ≤ start + n
    · have hn : (((n + 1 : Nat) : Int) + min start 0).toNat = ((n : Int) + min start 0).toNat + 1 := by
        omega
      have hindex : start.toNat + ((n : Int) + min start 0).toNat = (start + n).toNat := by omega
      rw [if_pos h, hn, List.take_add_one, List.getElem?_drop, hindex]
    · have hn : ((n : Int) + min start 0).toNat = 0 := by omega
      have hn' : (((n + 1 : Nat) : Int) + min start 0).toNat = 0 := by omega
      rw [if_neg h, hn, hn']
      rfl

theorem length_slice (l : List α) (start : Int) (n : Nat) :
    (slice l start n).length = min (n + min start 0).toNat (l.length - start.toNat) := by
  rw [slice, List.length_take, List.length_drop]

theorem filter_eq_take_iff {l : List α} (h : l.Nodup) (p : α → Bool) :
    (∃ k ≤ l.length, l.filter p = l.take k) ↔ l.Pairwise fun x y => p y = true → p x = true := by
  induction l with
  | nil => simp
  | cons a l ih =>
    obtain ⟨ha, hl⟩ := List.nodup_cons.mp h
    rw [List.pairwise_cons, ← ih hl]
    cases hp : p a with
    | true =>
      rw [List.filter_cons_of_pos hp]
      constructor
      · rintro ⟨k, hk, heq⟩
        cases k with
        | zero => cases heq
        | succ k =>
          rw [List.take_succ_cons] at heq
          exact ⟨fun _ _ _ => rfl, k, by simpa using hk, (List.cons.inj heq).2⟩
      · rintro ⟨-, k, hk, heq⟩
        exact ⟨k + 1, by simpa using hk, by rw [heq, List.take_succ_cons]⟩
    | false =>
      rw [List.filter_cons_of_neg (by simp [hp])]
      constructor
      · rintro ⟨k, hk, heq⟩
        cases k with
        | zero =>
          have hnone := List.filter_eq_nil_iff.mp heq
          exact ⟨fun y hy hpy => absurd hpy (hnone y hy), 0, Nat.zero_le _, heq⟩
        | succ k =>
          -- `a` would be among the elements kept
          have hmem : a ∈ l.filter p := by
            rw [heq]
            exact List.mem_cons_self
          exact absurd (List.mem_of_mem_filter hmem) ha
      · rintro ⟨hnone, -⟩
        refine ⟨0, Nat.zero_le _, List.filter_eq_nil_iff.mpr fun y hy hpy => ?_⟩
        cases hnone y hy hpy

end Lib
