import Mathlib.Logic.Relation

/-!
# Lib.Progress

A loop that goes on from one state to the next until there is none. Each round makes a measure of
the state smaller, or it leaves the state as it is.

* `endsWithin_iff` — with more rounds than the measure, it ends when no round leaves its state.
* `endsWithin_measure_iff` — with as many, it ends as well unless all rounds take one off it.
-/

namespace Lib

variable {σ : Type*} {step : σ → Option σ} {measure : σ → Nat} {s s' : σ} {n : Nat}

/-- The last round, after which there is no state, is one of the `n`. -/
def EndsWithin (step : σ → Option σ) : Nat → σ → Prop
  | 0, _ => False
  | n + 1, s => ∀ s', step s = some s' → EndsWithin step n s'

def ComesTo (step : σ → Option σ) : σ → σ → Prop :=
  Relation.ReflTransGen fun s s' => step s = some s'

/-- No round that it comes to leaves its state. -/
def Moves (step : σ → Option σ) (s : σ) : Prop := ∀ s', ComesTo step s s' → step s' ≠ some s'

/-- `n` rounds take one off the measure each, down to 0. -/
def ByOne (step : σ → Option σ) (measure : σ → Nat) : Nat → σ → Prop
  | 0, _ => True
  | n + 1, s => ∃ s', step s = some s' ∧ measure s' = n ∧ ByOne step measure n s'

theorem Moves.next (h : Moves step s) (hstep : step s = some s') : Moves step s' :=
  fun s'' hs'' => h s'' (.head hstep hs'')

theorem EndsWithin.comesTo (h : EndsWithin step n s) (hs' : ComesTo step s s') :
    ∃ m, EndsWithin step m s' := by
  induction hs' with
  | refl => exact ⟨n, h⟩
  | tail _ hstep ih =>
    obtain ⟨m, hm⟩ := ih
    cases m with
    | zero => cases hm
    | succ m => exact ⟨m, hm _ hstep⟩

theorem not_endsWithin_of_fixed (h : step s = some s) : ∀ n, ¬ EndsWithin step n s := by
  intro n
  induction n with
  | zero => exact id
  | succ n ih => exact fun hends => ih (hends s h)

theorem EndsWithin.moves (h : EndsWithin step n s) : Moves step s := by
  intro s' hs' hfixed
  obtain ⟨m, hm⟩ := h.comesTo hs'
  exact not_endsWithin_of_fixed hfixed m hm

variable (hstep : ∀ s s', step s = some s' → s' = s ∨ measure s' < measure s)

include hstep

theorem Moves.lt (h : Moves step s) (hs' : step s = some s') : measure s' < measure s := by
  refine (hstep s s' hs').resolve_left ?_
  rintro rfl
  exact h s' .refl hs'

theorem Moves.endsWithin (h : Moves step s) (hn : measure s < n) : EndsWithin step n s := by
  induction n generalizing s with
  | zero => exact absurd hn (Nat.not_lt_zero _)
  | succ n ih =>
    intro s' hs'
    have hlt := h.lt hstep hs'
    exact ih (h.next hs') (by omega)

theorem endsWithin_iff (hn : measure s < n) : EndsWithin step n s ↔ Moves step s :=
  ⟨EndsWithin.moves, fun h => h.endsWithin hstep hn⟩

theorem endsWithin_measure_iff (hn : measure s = n) :
    EndsWithin step n s ↔ Moves step s ∧ ¬ ByOne step measure n s := by
  induction n generalizing s with
  | zero => exact iff_of_false id fun h => h.2 trivial
  | succ n ih =>
    constructor
    · intro h
      refine ⟨h.moves, ?_⟩
      rintro ⟨s', hs', hlen, hone⟩
      exact ((ih hlen).mp (h s' hs')).2 hone
    · rintro ⟨hmoves, hone⟩ s' hs'
      have hlt := hmoves.lt hstep hs'
      by_cases hlen : measure s' = n
      · exact (ih hlen).mpr ⟨hmoves.next hs', fun h => hone ⟨s', hs', hlen, h⟩⟩
      · exact (hmoves.next hs').endsWithin hstep (by omega)

end Lib
