import Mathlib.Data.List.Basic

/-!
# Lib.Traced

Computations that may fail and that record the states in which they take their steps.

`Traced.Spec P ok bad Q` says of a computation that it fails with a `bad` error exactly when it comes
to a state that is not `ok`, that all states it comes to satisfy `P`, and that its result satisfies
`Q`. There is a rule for each way in which computations are made: `pure`, `fail`, `step`, `bind` and
`foldlM`.
-/

namespace Lib

structure Traced (π ε α : Type) where
  points : List π
  result : Except ε α

namespace Traced

variable {π ε α β : Type}

/-- A step in the state `p`, which succeeds or fails. -/
def step (p : π) (x : Except ε α) : Traced π ε α := ⟨[p], x⟩

def fail (e : ε) : Traced π ε α := ⟨[], .error e⟩

instance : Monad (Traced π ε) where
  pure a := ⟨[], .ok a⟩
  bind c f :=
    match c.result with
    | .ok a => ⟨c.points ++ (f a).points, (f a).result⟩
    | .error e => ⟨c.points, .error e⟩

theorem pure_eq (a : α) : (pure a : Traced π ε α) = ⟨[], .ok a⟩ := rfl

theorem bind_ok {c : Traced π ε α} {f : α → Traced π ε β} {a : α} (h : c.result = .ok a) :
    c >>= f = ⟨c.points ++ (f a).points, (f a).result⟩ := by
  show (match c.result with
    | .ok a => ⟨c.points ++ (f a).points, (f a).result⟩
    | .error e => ⟨c.points, .error e⟩ : Traced π ε β) = _
  rw [h]

theorem bind_error {c : Traced π ε α} {f : α → Traced π ε β} {e : ε} (h : c.result = .error e) :
    c >>= f = ⟨c.points, .error e⟩ := by
  show (match c.result with
    | .ok a => ⟨c.points ++ (f a).points, (f a).result⟩
    | .error e => ⟨c.points, .error e⟩ : Traced π ε β) = _
  rw [h]

theorem bind_eq_ok {c : Traced π ε α} {f : α → Traced π ε β} {b : β}
    (h : (c >>= f).result = .ok b) : ∃ a, c.result = .ok a ∧ (f a).result = .ok b := by
  cases hc : c.result with
  | error e =>
    rw [bind_error hc] at h
    cases h
  | ok a =>
    rw [bind_ok hc] at h
    exact ⟨a, rfl, h⟩

theorem pure_bind_eq (a : α) (f : α → Traced π ε β) : (pure a >>= f) = f a := by
  rw [bind_ok rfl]
  simp [pure_eq]

/-- The computation ends with an error that is `bad`. -/
def Fails (bad : ε → Prop) (c : Traced π ε α) : Prop := ∃ e, bad e ∧ c.result = .error e

structure Spec (P ok : π → Prop) (bad : ε → Prop) (Q : α → Prop) (c : Traced π ε α) : Prop where
  fails_iff : c.Fails bad ↔ ∃ p ∈ c.points, ¬ ok p
  every : ∀ p ∈ c.points, P p
  post : ∀ a, c.result = .ok a → Q a

section Spec

variable {P P' ok : π → Prop} {bad : ε → Prop} {Q Q' : α → Prop} {R : β → Prop}

theorem Spec.mono {c : Traced π ε α} (h : Spec P ok bad Q c) (hP : ∀ p, P p → P' p)
    (hQ : ∀ a, Q a → Q' a) : Spec P' ok bad Q' c where
  fails_iff := h.fails_iff
  every p hp := hP p (h.every p hp)
  post a ha := hQ a (h.post a ha)

theorem Spec.pure {a : α} (h : Q a) : Spec P ok bad Q (pure a : Traced π ε α) where
  fails_iff := by
    refine iff_of_false ?_ ?_
    · rintro ⟨e, -, h⟩
      cases h
    · rintro ⟨p, h, -⟩
      cases h
  every := by
    intro p hp
    cases hp
  post := by
    intro a' ha'
    cases ha'
    exact h

theorem Spec.fail {e : ε} (h : ¬ bad e) : Spec P ok bad Q (fail e : Traced π ε α) where
  fails_iff := by
    refine iff_of_false ?_ ?_
    · rintro ⟨e', hbad, heq⟩
      cases heq
      exact h hbad
    · rintro ⟨p, h, -⟩
      cases h
  every := by
    intro p hp
    cases hp
  post := by
    intro a ha
    cases ha

theorem Spec.step {p : π} {x : Except ε α} (hp : P p) (h : (∃ e, bad e ∧ x = .error e) ↔ ¬ ok p)
    (hx : ∀ a, x = .ok a → Q a) : Spec P ok bad Q (step p x) where
  fails_iff := by
    refine h.trans ⟨fun hno => ⟨p, List.mem_singleton_self p, hno⟩, ?_⟩
    rintro ⟨p', hmem, hno⟩
    cases List.mem_singleton.mp hmem
    exact hno
  every := by
    intro p' hmem
    cases List.mem_singleton.mp hmem
    exact hp
  post := hx

theorem Spec.bind {c : Traced π ε α} {f : α → Traced π ε β} (hc : Spec P ok bad Q c)
    (hf : ∀ a, Q a → Spec P ok bad R (f a)) : Spec P ok bad R (c >>= f) := by
  cases h : c.result with
  | ok a =>
    have hnone : ¬ ∃ p ∈ c.points, ¬ ok p := by
      rw [← hc.fails_iff]
      rintro ⟨e, -, heq⟩
      rw [h] at heq
      cases heq
    have hfa := hf a (hc.post a h)
    rw [bind_ok h]
    refine ⟨hfa.fails_iff.trans ⟨?_, ?_⟩, ?_, hfa.post⟩
    · rintro ⟨p, hmem, hp⟩
      exact ⟨p, List.mem_append_right _ hmem, hp⟩
    · rintro ⟨p, hmem, hp⟩
      rcases List.mem_append.mp hmem with hmem | hmem
      · exact absurd ⟨p, hmem, hp⟩ hnone
      · exact ⟨p, hmem, hp⟩
    · intro p hmem
      rcases List.mem_append.mp hmem with hmem | hmem
      · exact hc.every p hmem
      · exact hfa.every p hmem
  | error e =>
    rw [bind_error h]
    have hfails : (⟨c.points, .error e⟩ : Traced π ε β).Fails bad ↔ c.Fails bad := by
      simp [Fails, h]
    refine ⟨hfails.trans hc.fails_iff, hc.every, ?_⟩
    intro b hb
    cases hb

/-- An invariant of the state is kept by each round. -/
theorem Spec.foldlM {f : β → α → Traced π ε β} {l : List α}
    (h : ∀ b, R b → ∀ a ∈ l, Spec P ok bad R (f b a)) {b : β} (hb : R b) :
    Spec P ok bad R (l.foldlM f b) := by
  induction l generalizing b with
  | nil => exact .pure hb
  | cons a l ih =>
    rw [List.foldlM_cons]
    refine (h b hb a List.mem_cons_self).bind fun b' hb' => ?_
    exact ih (fun b hb a' ha' => h b hb a' (List.mem_cons_of_mem _ ha')) hb'

end Spec

end Traced
end Lib
