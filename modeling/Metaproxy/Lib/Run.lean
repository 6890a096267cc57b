import Mathlib.Data.List.Basic

/-!
# Lib.Run

Runs of a partial step function. A system is given by `step : σ → ε → Option σ`, where the label
`ε` says who moves and what the environment answered.

* `Reach step init ok s` — `s` is reached from an initial state by steps that each met `ok` in the
  state they were taken in. With `ok := Any` these are all the reachable states.
* `run` — the executable form: the state after a list of labels.
-/

namespace Lib

variable {σ ε : Type*}

/-- The condition every step meets. -/
def Any : σ → ε → Prop := fun _ _ => True

inductive Reach (step : σ → ε → Option σ) (init : σ → Prop) (ok : σ → ε → Prop) : σ → Prop where
  | start {s : σ} : init s → Reach step init ok s
  | next {s s' : σ} {e : ε} :
      Reach step init ok s → ok s e → step s e = some s' → Reach step init ok s'

section

variable {step : σ → ε → Option σ} {init : σ → Prop} {ok ok' : σ → ε → Prop} {I : σ → Prop}

/-- What holds initially and survives every step that meets `ok` holds of every reached state. -/
theorem Reach.invariant (hinit : ∀ s, init s → I s)
    (hstep : ∀ s e s', I s → ok s e → step s e = some s' → I s') {s : σ}
    (h : Reach step init ok s) : I s := by
  induction h with
  | start hs => exact hinit _ hs
  | next _ hok hs ih => exact hstep _ _ _ ih hok hs

theorem Reach.mono (hok : ∀ s e, ok s e → ok' s e) {s : σ} (h : Reach step init ok s) :
    Reach step init ok' s := by
  induction h with
  | start hs => exact .start hs
  | next _ he hs ih => exact .next ih (hok _ _ he) hs

theorem Reach.any {s : σ} (h : Reach step init ok s) : Reach step init Any s :=
  h.mono fun _ _ _ => trivial

/-- An invariant of all runs may be used in the step of another one. -/
theorem Reach.invariant_with {J : σ → Prop} (hJ : ∀ s, Reach step init ok s → J s)
    (hinit : ∀ s, init s → I s)
    (hstep : ∀ s e s', J s → I s → ok s e → step s e = some s' → I s') {s : σ}
    (h : Reach step init ok s) : I s := by
  induction h with
  | start hs => exact hinit _ hs
  | next hr he hs ih => exact hstep _ _ _ (hJ _ hr) ih he hs

end

/-- The state after a list of labels; `none` when a step is not enabled. -/
def run (step : σ → ε → Option σ) : σ → List ε → Option σ
  | s, [] => some s
  | s, e :: es => (step s e).bind fun s' => run step s' es

theorem run_append (step : σ → ε → Option σ) (s : σ) (es es' : List ε) :
    run step s (es ++ es') = (run step s es).bind fun s' => run step s' es' := by
  induction es generalizing s with
  | nil => rfl
  | cons e es ih =>
    rw [List.cons_append, run, run, Option.bind_assoc]
    exact congrArg _ (funext fun s' => ih s')

/-- Every step of the run meets `ok`. -/
def RunOk (step : σ → ε → Option σ) (ok : σ → ε → Prop) : σ → List ε → Prop
  | _, [] => True
  | s, e :: es => ok s e ∧ ∀ s' ∈ step s e, RunOk step ok s' es

instance decidableRunOk (step : σ → ε → Option σ) (ok : σ → ε → Prop)
    [∀ s e, Decidable (ok s e)] : ∀ s es, Decidable (RunOk step ok s es)
  | _, [] => isTrue trivial
  | s, e :: es =>
    have := fun s' => decidableRunOk step ok s' es
    inferInstanceAs (Decidable (ok s e ∧ ∀ s' ∈ step s e, RunOk step ok s' es))

section

variable {step : σ → ε → Option σ} {init : σ → Prop} {ok : σ → ε → Prop}

theorem Reach.of_run {s : σ} (h : Reach step init ok s) :
    ∀ {es : List ε} {s' : σ}, RunOk step ok s es → run step s es = some s' →
      Reach step init ok s' := by
  intro es
  induction es generalizing s with
  | nil => intro s' _ hr; cases hr; exact h
  | cons e es ih =>
    intro s' hok hr
    obtain ⟨s1, h1, h2⟩ := Option.bind_eq_some_iff.mp hr
    exact ih (h.next hok.1 h1) (hok.2 s1 h1) h2

theorem runOk_any (s : σ) (es : List ε) : RunOk step Any s es := by
  induction es generalizing s with
  | nil => trivial
  | cons e es ih => exact ⟨trivial, fun s' _ => ih s'⟩

/-- A list of labels that runs from an initial state to one where `p` holds, each step meeting
`ok`. -/
theorem Reach.exists_of_run {s : σ} {es : List ε} {p : σ → Bool} (hs : init s)
    (hok : RunOk step ok s es) (hp : (run step s es).any p = true) :
    ∃ s', Reach step init ok s' ∧ p s' = true := by
  cases hr : run step s es with
  | none => rw [hr] at hp; cases hp
  | some s' =>
    rw [hr] at hp
    exact ⟨s', (Reach.start hs).of_run hok hr, hp⟩

end

end Lib
