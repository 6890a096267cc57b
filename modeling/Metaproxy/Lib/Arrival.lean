import Mathlib.Data.List.Nodup
import Mathlib.Data.List.Perm.Subperm
import Mathlib.Data.Nat.Find
import Mathlib.Logic.Function.Iterate

/-!
# Lib.Arrival

Where a function comes to when it is applied again and again.

* `Arrives f goal s` — from `s` it comes to `goal`.
* `FirstArrival f goal s n` — it does so after `n` steps for the first time. Up to there all states
  are different (`FirstArrival.inj`), so there are no more of them than there is room for
  (`FirstArrival.lt`).
-/

namespace Lib

variable {α : Type*} {f : α → α} {goal s : α} {n : Nat}

def Arrives (f : α → α) (goal s : α) : Prop := ∃ n, f^[n] s = goal

theorem Arrives.of_next (h : Arrives f goal (f s)) : Arrives f goal s := by
  obtain ⟨n, hn⟩ := h
  exact ⟨n + 1, hn⟩

theorem Arrives.next (h : Arrives f goal s) (hs : s ≠ goal) : Arrives f goal (f s) := by
  obtain ⟨n, hn⟩ := h
  cases n with
  | zero => exact absurd hn hs
  | succ n => exact ⟨n, hn⟩

structure FirstArrival (f : α → α) (goal s : α) (n : Nat) : Prop where
  arrived : f^[n] s = goal
  first : ∀ m, m < n → f^[m] s ≠ goal

theorem Arrives.exists_first (h : Arrives f goal s) : ∃ n, FirstArrival f goal s n := by
  classical
  exact ⟨Nat.find h, Nat.find_spec h, fun _ hm => Nat.find_min h hm⟩

theorem FirstArrival.next (h : FirstArrival f goal s (n + 1)) : FirstArrival f goal (f s) n where
  arrived := h.arrived
  first m hm := h.first (m + 1) (Nat.succ_lt_succ hm)

theorem FirstArrival.ne_of_lt (h : FirstArrival f goal s n) {i j : Nat} (hij : i < j)
    (hj : j ≤ n) : f^[i] s ≠ f^[j] s := by
  intro heq
  -- what comes after the one comes after the other
  have harrived : f^[n - j + i] s = goal := by
    rw [Function.iterate_add_apply, heq, ← Function.iterate_add_apply, Nat.sub_add_cancel hj]
    exact h.arrived
  exact h.first _ (by omega) harrived

theorem FirstArrival.inj (h : FirstArrival f goal s n) {i j : Nat} (hi : i ≤ n) (hj : j ≤ n)
    (heq : f^[i] s = f^[j] s) : i = j := by
  rcases Nat.lt_trichotomy i j with hlt | rfl | hlt
  · exact absurd heq (h.ne_of_lt hlt hj)
  · rfl
  · exact absurd heq.symm (h.ne_of_lt hlt hi)

theorem FirstArrival.lt {f : Nat → Nat} {goal s d : Nat} (h : FirstArrival f goal s n)
    (hd : ∀ m, m ≤ n → f^[m] s < d) : n < d := by
  have hnodup : ((List.range (n + 1)).map fun m => f^[m] s).Nodup := by
    refine List.Nodup.map_on ?_ List.nodup_range
    intro i hi j hj heq
    rw [List.mem_range] at hi hj
    exact h.inj (by omega) (by omega) heq
  have hsubset : ((List.range (n + 1)).map fun m => f^[m] s) ⊆ List.range d := by
    intro x hx
    obtain ⟨m, hm, rfl⟩ := List.mem_map.mp hx
    rw [List.mem_range] at hm ⊢
    exact hd m (by omega)
  have hle := (hnodup.subperm hsubset).length_le
  simp only [List.length_map, List.length_range] at hle
  exact hle

/-- A function that stays below `d` arrives, if it does, in less than `d` steps. -/
theorem Arrives.exists_lt {f : Nat → Nat} {goal s d : Nat} (h : Arrives f goal s) (hs : s < d)
    (hf : ∀ x, f x < d) : ∃ n, n < d ∧ FirstArrival f goal s n := by
  obtain ⟨n, hn⟩ := h.exists_first
  refine ⟨n, hn.lt ?_, hn⟩
  intro m _
  cases m with
  | zero => exact hs
  | succ m =>
    rw [Function.iterate_succ_apply']
    exact hf _

end Lib
