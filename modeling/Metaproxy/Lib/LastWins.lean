import Mathlib.Data.List.Induction
import Mathlib.Logic.Function.Basic

/-!
# Lib.LastWins

A table that is filled from a list, where what comes later replaces what came before. An item of the
list gives its value to the key that it has, if any.

* `foldl_give` — each key has the value of the last item that gives it one.
* `foldl_filter_eq_iff` — when it is the same with some of the items only.
-/

namespace Lib

variable {α κ ν : Type*} [DecidableEq κ] {key : α → Option κ} {value : α → ν} {table : κ → ν}
  {l : List α} {p : α → Bool} {k : κ} {x : α}

def give (key : α → Option κ) (value : α → ν) (table : κ → ν) (x : α) : κ → ν :=
  match key x with
  | some k => Function.update table k (value x)
  | none => table

/-- The last item that gives a value to `k`. -/
def lastOf (key : α → Option κ) (k : κ) (l : List α) : Option α :=
  l.reverse.find? fun x => key x = some k

/-- The value of `k` when it was `v` before. -/
def lastValue (key : α → Option κ) (value : α → ν) (k : κ) (l : List α) (v : ν) : ν :=
  ((lastOf key k l).map value).getD v

theorem give_of_eq (h : key x = some k) : give key value table x k = value x := by
  rw [give, h]
  exact Function.update_self ..

theorem give_of_ne (h : key x ≠ some k) : give key value table x k = table k := by
  rw [give]
  cases hx : key x with
  | none => rfl
  | some k' =>
    refine Function.update_of_ne ?_ _ _
    rintro rfl
    exact h hx

theorem lastOf_concat (l : List α) (x : α) :
    lastOf key k (l ++ [x]) = if key x = some k then some x else lastOf key k l := by
  rw [lastOf, List.reverse_append, List.reverse_singleton, List.singleton_append, List.find?_cons]
  by_cases h : key x = some k
  · simp only [h, decide_true, if_true]
  · simp only [h, decide_false, if_false]
    rfl

theorem foldl_give (l : List α) (table : κ → ν) (k : κ) :
    l.foldl (give key value) table k = lastValue key value k l (table k) := by
  induction l using List.reverseRecOn with
  | nil => rfl
  | append_singleton l x ih =>
    rw [List.foldl_append, List.foldl_cons, List.foldl_nil, lastValue, lastOf_concat]
    by_cases h : key x = some k
    · rw [if_pos h, give_of_eq h]
      rfl
    · rw [if_neg h, give_of_ne h, ih, lastValue]

theorem lastOf_cons (x : α) (l : List α) :
    lastOf key k (x :: l) = (lastOf key k l).or (if key x = some k then some x else none) := by
  rw [lastOf, List.reverse_cons, List.find?_append, List.find?_singleton]
  simp only [decide_eq_true_eq]
  rfl

/-- The first item only gives the value that there is before the others. -/
theorem lastValue_cons (x : α) (l : List α) (v : ν) : lastValue key value k (x :: l) v =
    lastValue key value k l (if key x = some k then value x else v) := by
  rw [lastValue, lastValue, lastOf_cons]
  cases lastOf key k l with
  | some y => rfl
  | none => split <;> rfl

/-- With one value only, it matters whether there is an item for the key. -/
theorem lastValue_true :
    lastValue key (fun _ => true) k l false = l.any fun x => key x = some k := by
  have hsome : (lastOf key k l).isSome = l.any fun x => key x = some k := by
    rw [lastOf, List.isSome_find?, List.any_reverse]
  rw [lastValue, ← hsome]
  cases lastOf key k l <;> rfl

theorem lastOf_filter (h : lastOf key k l = some x) (hx : p x = true) :
    lastOf key k (l.filter p) = some x := by
  induction l using List.reverseRecOn with
  | nil => cases h
  | append_singleton l y ih =>
    rw [lastOf_concat] at h
    rw [List.filter_append]
    by_cases hy : key y = some k
    · rw [if_pos hy] at h
      obtain rfl := Option.some.inj h
      rw [List.filter_cons, if_pos hx, List.filter_nil, lastOf_concat, if_pos hy]
    · rw [if_neg hy] at h
      rw [List.filter_cons, List.filter_nil]
      split
      · rw [lastOf_concat, if_neg hy, ih h]
      · rw [List.append_nil, ih h]

theorem lastOf_filter_none (h : lastOf key k l = none) : lastOf key k (l.filter p) = none := by
  rw [lastOf, List.find?_eq_none] at h ⊢
  intro x hx
  exact h x (List.mem_reverse.mpr (List.mem_filter.mp (List.mem_reverse.mp hx)).1)

/-- For every key, the last item that gives it is one of those taken, or gives the value that the key
has with those. -/
theorem foldl_filter_eq_iff :
    (l.filter p).foldl (give key value) table = l.foldl (give key value) table ↔
      ∀ k x, lastOf key k l = some x → p x = true ∨
        value x = lastValue key value k (l.filter p) (table k) := by
  rw [funext_iff]
  refine forall_congr' fun k => ?_
  rw [foldl_give, foldl_give]
  cases h : lastOf key k l with
  | none =>
    rw [lastValue, lastValue, h, lastOf_filter_none h]
    exact iff_of_true rfl fun x hx => by cases hx
  | some x =>
    have hlast : lastValue key value k l (table k) = value x := by
      rw [lastValue, h]
      rfl
    rw [hlast]
    constructor
    · rintro heq x' hx'
      obtain rfl := Option.some.inj hx'
      exact .inr heq.symm
    · intro hall
      rcases hall x rfl with hx | heq
      · rw [lastValue, lastOf_filter h hx]
        rfl
      · exact heq.symm

end Lib
