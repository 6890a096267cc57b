import Mathlib.Data.Option.Basic
import Mathlib.Data.List.Basic

/-!
# Lib.Checked

Signed integers of limited range, as integers that are checked: `checked max x` is `x` when it lies
between `-max - 1` and `max`, and nothing otherwise.
-/

namespace Lib

def checked (max x : Int) : Option Int :=
  if -max - 1 ≤ x ∧ x ≤ max then some x else none

theorem checked_eq_some {max x y : Int} :
    checked max x = some y ↔ (-max - 1 ≤ x ∧ x ≤ max) ∧ x = y := by
  rw [checked, Option.ite_none_right_eq_some, Option.some.injEq]

theorem checked_of_le {max x : Int} (hlo : 0 ≤ x) (hhi : x ≤ max) : checked max x = some x :=
  checked_eq_some.mpr ⟨⟨by omega, hhi⟩, rfl⟩

theorem checked_eq_none {max x : Int} (h : max < x) : checked max x = none := by
  rw [checked, if_neg]
  omega

section MapM

variable {α β : Type*} {f : α → Option β} {g : α → β} {l : List α}

theorem mapM_sound (hf : ∀ x y, f x = some y → y = g x) {l' : List β} (h : l.mapM f = some l') :
    l' = l.map g := by
  induction l generalizing l' with
  | nil =>
    cases h
    rfl
  | cons x l ih =>
    rw [List.mapM_cons] at h
    obtain ⟨y, hy, h⟩ := Option.bind_eq_some_iff.mp h
    obtain ⟨ys, hys, h⟩ := Option.bind_eq_some_iff.mp h
    cases h
    rw [List.map_cons, hf x y hy, ih hys]

theorem mapM_of_forall (h : ∀ x ∈ l, f x = some (g x)) : l.mapM f = some (l.map g) := by
  induction l with
  | nil => rfl
  | cons x l ih =>
    rw [List.mapM_cons, h x List.mem_cons_self, ih fun y hy => h y (List.mem_cons_of_mem x hy)]
    rfl

theorem mapM_eq_none {x : α} (hx : x ∈ l) (h : f x = none) : l.mapM f = none := by
  induction l with
  | nil => cases hx
  | cons y l ih =>
    rw [List.mapM_cons]
    obtain rfl | hx := List.mem_cons.mp hx
    · rw [h]
      rfl
    · rw [ih hx]
      cases f y with
      | none => rfl
      | some z => rfl

end MapM

end Lib
