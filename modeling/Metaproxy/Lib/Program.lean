import Mathlib.Data.Option.Basic

/-!
# Lib.Program

Programs that make calls and go on with the answers: trees with a call at each node. Who answers the
calls is said later.

* `run` — answers come from a function that may have none.
* `through` — each call is answered by a program, whose own calls are then those of the whole
  (`run_through`, `through_through`).
* `Spec` — what holds of the calls and of the result when the answers are as they should be, with a
  rule for each way in which programs are made of others.
-/

namespace Lib

inductive Program (ι ο α : Type*) where
  | ret (a : α)
  | call (i : ι) (k : ο → Program ι ο α)

namespace Program

variable {ι ο ι' ο' α β γ : Type*}

def bind : Program ι ο α → (α → Program ι ο β) → Program ι ο β
  | ret a, f => f a
  | call i k, f => call i fun o => (k o).bind f

/-- Each call is answered by the program `h`. -/
def through (h : ι → Program ι' ο' ο) : Program ι ο α → Program ι' ο' α
  | ret a => ret a
  | call i k => (h i).bind fun o => (k o).through h

/-- A call whose answer is the result. -/
def ask (i : ι) : Program ι ο ο := call i ret

def run (h : ι → Option ο) : Program ι ο α → Option α
  | ret a => some a
  | call i k => (h i).bind fun o => (k o).run h

/-! ## Laws -/

theorem bind_ret (p : Program ι ο α) : p.bind ret = p := by
  induction p with
  | ret a => rfl
  | call i k ih => exact congrArg (call i) (funext ih)

theorem bind_assoc (p : Program ι ο α) (f : α → Program ι ο β) (g : β → Program ι ο γ) :
    (p.bind f).bind g = p.bind fun a => (f a).bind g := by
  induction p with
  | ret a => rfl
  | call i k ih => exact congrArg (call i) (funext ih)

theorem through_bind (h : ι → Program ι' ο' ο) (p : Program ι ο α) (f : α → Program ι ο β) :
    (p.bind f).through h = (p.through h).bind fun a => (f a).through h := by
  induction p with
  | ret a => rfl
  | call i k ih =>
    rw [bind, through, through, bind_assoc]
    exact congrArg _ (funext ih)

/-- Programs that answer calls may be put together first. -/
theorem through_through {ι'' ο'' : Type*} (g : ι' → Program ι'' ο'' ο') (h : ι → Program ι' ο' ο)
    (p : Program ι ο α) : (p.through h).through g = p.through fun i => (h i).through g := by
  induction p with
  | ret a => rfl
  | call i k ih =>
    rw [through, through, through_bind]
    exact congrArg _ (funext ih)

theorem ask_through (h : ι → Program ι' ο' ο) (i : ι) : (ask i).through h = h i := bind_ret (h i)

theorem run_bind (h : ι → Option ο) (p : Program ι ο α) (f : α → Program ι ο β) :
    (p.bind f).run h = (p.run h).bind fun a => (f a).run h := by
  induction p with
  | ret a => rfl
  | call i k ih =>
    rw [bind, run, run, Option.bind_assoc]
    exact congrArg _ (funext ih)

theorem run_through (g : ι' → Option ο') (h : ι → Program ι' ο' ο) (p : Program ι ο α) :
    (p.through h).run g = p.run fun i => (h i).run g := by
  induction p with
  | ret a => rfl
  | call i k ih =>
    rw [through, run, run_bind]
    exact congrArg _ (funext ih)

/-- More answers do not change a result. -/
theorem run_mono {g h : ι → Option ο} (hle : ∀ i o, g i = some o → h i = some o) {p : Program ι ο α}
    {a : α} (hrun : p.run g = some a) : p.run h = some a := by
  induction p with
  | ret a' => exact hrun
  | call i k ih =>
    obtain ⟨o, ho, hk⟩ := Option.bind_eq_some_iff.mp hrun
    exact Option.bind_eq_some_iff.mpr ⟨o, hle i o ho, ih o hk⟩

/-- A result needs finitely many of the answers that get more with `n`. -/
theorem run_limit {h : Nat → ι → Option ο}
    (hmono : ∀ m n i o, m ≤ n → h m i = some o → h n i = some o) {g : ι → Option ο}
    (hlimit : ∀ i o, g i = some o → ∃ n, h n i = some o) {p : Program ι ο α} {a : α}
    (hrun : p.run g = some a) : ∃ n, p.run (h n) = some a := by
  induction p with
  | ret a' => exact ⟨0, hrun⟩
  | call i k ih =>
    obtain ⟨o, ho, hk⟩ := Option.bind_eq_some_iff.mp hrun
    obtain ⟨n, hn⟩ := hlimit i o ho
    obtain ⟨n', hn'⟩ := ih o hk
    refine ⟨max n n', Option.bind_eq_some_iff.mpr ⟨o, ?_, ?_⟩⟩
    · exact hmono n _ i o (Nat.le_max_left _ _) hn
    · exact run_mono (fun i' o' => hmono n' _ i' o' (Nat.le_max_right _ _)) hn'

/-! ## Specifications -/

/-- If all answers satisfy `ans`, then all calls satisfy `req` and the result satisfies `Q`. -/
def Spec (req : ι → Prop) (ans : ι → ο → Prop) (Q : α → Prop) : Program ι ο α → Prop
  | ret a => Q a
  | call i k => req i ∧ ∀ o, ans i o → Spec req ans Q (k o)

variable {req req' : ι → Prop} {ans ans' : ι → ο → Prop} {Q Q' : α → Prop} {R : β → Prop}

theorem Spec.mono {p : Program ι ο α} (h : p.Spec req ans Q) (hreq : ∀ i, req i → req' i)
    (hans : ∀ i o, ans' i o → ans i o) (hQ : ∀ a, Q a → Q' a) : p.Spec req' ans' Q' := by
  induction p with
  | ret a => exact hQ a h
  | call i k ih => exact ⟨hreq i h.1, fun o ho => ih o (h.2 o (hans i o ho))⟩

theorem Spec.bind {p : Program ι ο α} {f : α → Program ι ο β} (hp : p.Spec req ans Q)
    (hf : ∀ a, Q a → (f a).Spec req ans R) : (p.bind f).Spec req ans R := by
  induction p with
  | ret a => exact hf a hp
  | call i k ih => exact ⟨hp.1, fun o ho => ih o (hp.2 o ho)⟩

/-- The calls of the one are what the other is asked. -/
theorem Spec.through {reqh : ι' → Prop} {ansh : ι' → ο' → Prop} {h : ι → Program ι' ο' ο}
    {p : Program ι ο α} (hp : p.Spec req ans Q) (hh : ∀ i, req i → (h i).Spec reqh ansh (ans i)) :
    (p.through h).Spec reqh ansh Q := by
  induction p with
  | ret a => exact hp
  | call i k ih => exact (hh i hp.1).bind fun o ho => ih o (hp.2 o ho)

theorem Spec.run {h : ι → Option ο} {p : Program ι ο α} (hp : p.Spec req ans Q)
    (hh : ∀ i o, req i → h i = some o → ans i o) {a : α} (hrun : p.run h = some a) : Q a := by
  induction p with
  | ret a' =>
    cases hrun
    exact hp
  | call i k ih =>
    obtain ⟨o, ho, hk⟩ := Option.bind_eq_some_iff.mp hrun
    exact ih o (hp.2 o (hh i o hp.1 ho)) hk

theorem Spec.isSome {h : ι → Option ο} {p : Program ι ο α}
    (hp : p.Spec req (fun _ _ => True) Q) (hh : ∀ i, req i → (h i).isSome = true) :
    (p.run h).isSome = true := by
  induction p with
  | ret a => rfl
  | call i k ih =>
    obtain ⟨o, ho⟩ := Option.isSome_iff_exists.mp (hh i hp.1)
    rw [Program.run, ho]
    exact ih o (hp.2 o trivial)

end Program

end Lib
