import Mathlib.Data.List.Basic

/-!
# Lib.Outcome

What a computation in `Except` that has gone well has done: `bind_eq_ok`, `map_eq_ok`, `elim_eq_ok`
for the ways in which it is made of others, `forall_of_foldlM` and `foldlM_collects` for loops.
-/

namespace Lib

universe u

variable {ε : Type*}

theorem bind_eq_ok {α β : Type u} {x : Except ε α} {f : α → Except ε β} {b : β}
    (h : x >>= f = .ok b) : ∃ a, x = .ok a ∧ f a = .ok b := by
  cases x with
  | error e => cases h
  | ok a => exact ⟨a, rfl, h⟩

section

variable {α β : Type*} {x : Except ε α} {f : α → β}

theorem map_eq_ok {b : β} (h : x.map f = .ok b) : ∃ a, x = .ok a ∧ f a = b := by
  cases x with
  | error e => cases h
  | ok a =>
    cases h
    exact ⟨a, rfl, rfl⟩

theorem map_eq_ok_iff (hf : Function.Injective f) {a : α} : x.map f = .ok (f a) ↔ x = .ok a := by
  constructor
  · intro h
    obtain ⟨a', rfl, heq⟩ := map_eq_ok h
    rw [hf heq]
  · intro h
    rw [h]
    rfl

theorem elim_eq_ok {x : Option α} {e : ε} {a : α} (h : x.elim (.error e) Except.ok = .ok a) :
    x = some a := by
  cases x with
  | none => cases h
  | some b =>
    cases h
    rfl

end

/-! ## Loops -/

section

variable {σ β γ : Type*} {visit : σ → β → Except ε σ} {l : List β} {x : β} {s s' : σ}

theorem foldlM_cons_eq_ok (h : (x :: l).foldlM visit s = .ok s') :
    ∃ s1, visit s x = .ok s1 ∧ l.foldlM visit s1 = .ok s' := by
  rw [List.foldlM_cons] at h
  exact bind_eq_ok h

/-- Each element has been visited without an error. -/
theorem forall_of_foldlM (h : l.foldlM visit s = .ok s') :
    ∀ x ∈ l, ∃ s1 s2, visit s1 x = .ok s2 := by
  induction l generalizing s with
  | nil => exact List.forall_mem_nil _
  | cons x l ih =>
    obtain ⟨s1, hvisit, hrest⟩ := foldlM_cons_eq_ok h
    exact List.forall_mem_cons.mpr ⟨⟨s, s1, hvisit⟩, ih hrest⟩

/-- A fold whose visits append what `entry` says collects it in order. -/
theorem foldlM_collects {visit : List γ → β → Except ε (List γ)} {entry : β → Option γ}
    (hvisit : ∀ s x s', visit s x = .ok s' → s' = s ++ (entry x).toList) {s s' : List γ}
    (h : l.foldlM visit s = .ok s') : s' = s ++ l.filterMap entry := by
  induction l generalizing s with
  | nil =>
    cases h
    exact (List.append_nil _).symm
  | cons x l ih =>
    obtain ⟨s1, hfirst, hrest⟩ := foldlM_cons_eq_ok h
    rw [ih hrest, hvisit s x s1 hfirst, List.append_assoc]
    cases hentry : entry x with
    | none => rw [List.filterMap_cons_none hentry]; rfl
    | some y => rw [List.filterMap_cons_some hentry]; rfl

end

end Lib
