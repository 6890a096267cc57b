import Mathlib.Data.List.Basic

/-!
# Lib.Formula

Binary trees with operators `ω` at the nodes and operands `α` at the leaves: substitution (`bind`),
relabelling (`map`) and evaluation in any carrier (`eval`).
-/

namespace Lib

inductive Formula (ω α : Type*) where
  | leaf (a : α)
  | node (s1 s2 : Formula ω α) (op : ω)
deriving DecidableEq, Repr

namespace Formula

variable {ω α β γ : Type*}

def map (f : α → β) : Formula ω α → Formula ω β
  | leaf a => leaf (f a)
  | node s1 s2 op => node (s1.map f) (s2.map f) op

def bind (f : α → Formula ω β) : Formula ω α → Formula ω β
  | leaf a => f a
  | node s1 s2 op => node (s1.bind f) (s2.bind f) op

def eval (g : ω → γ → γ → γ) (f : α → γ) : Formula ω α → γ
  | leaf a => f a
  | node s1 s2 op => g op (s1.eval g f) (s2.eval g f)

def leaves : Formula ω α → List α
  | leaf a => [a]
  | node s1 s2 _ => s1.leaves ++ s2.leaves

theorem eval_bind (g : ω → γ → γ → γ) (f : β → γ) (h : α → Formula ω β) (t : Formula ω α) :
    (t.bind h).eval g f = t.eval g fun a => (h a).eval g f := by
  induction t with
  | leaf a => rfl
  | node s1 s2 op ih1 ih2 => simp only [bind, eval, ih1, ih2]

theorem eval_map (g : ω → γ → γ → γ) (f : β → γ) (h : α → β) (t : Formula ω α) :
    (t.map h).eval g f = t.eval g fun a => f (h a) := by
  induction t with
  | leaf a => rfl
  | node s1 s2 op ih1 ih2 => simp only [map, eval, ih1, ih2]

theorem map_map (f : α → β) (h : β → γ) (t : Formula ω α) :
    (t.map f).map h = t.map fun a => h (f a) := by
  induction t with
  | leaf a => rfl
  | node s1 s2 op ih1 ih2 => simp only [map, ih1, ih2]

theorem map_bind (f : β → γ) (h : α → Formula ω β) (t : Formula ω α) :
    (t.bind h).map f = t.bind fun a => (h a).map f := by
  induction t with
  | leaf a => rfl
  | node s1 s2 op ih1 ih2 => simp only [map, bind, ih1, ih2]

/-- Evaluation only looks at the leaves. -/
theorem eval_congr (g : ω → γ → γ → γ) {f f' : α → γ} {t : Formula ω α}
    (h : ∀ a ∈ t.leaves, f a = f' a) : t.eval g f = t.eval g f' := by
  induction t with
  | leaf a => exact h a (by simp [leaves])
  | node s1 s2 op ih1 ih2 =>
    have h1 := ih1 fun a ha => h a (by simp [leaves, ha])
    have h2 := ih2 fun a ha => h a (by simp [leaves, ha])
    simp only [eval, h1, h2]

theorem bind_congr {f f' : α → Formula ω β} {t : Formula ω α}
    (h : ∀ a ∈ t.leaves, f a = f' a) : t.bind f = t.bind f' := by
  induction t with
  | leaf a => exact h a (by simp [leaves])
  | node s1 s2 op ih1 ih2 =>
    have h1 := ih1 fun a ha => h a (by simp [leaves, ha])
    have h2 := ih2 fun a ha => h a (by simp [leaves, ha])
    simp only [bind, h1, h2]

theorem map_congr {f f' : α → β} {t : Formula ω α} (h : ∀ a ∈ t.leaves, f a = f' a) :
    t.map f = t.map f' := by
  induction t with
  | leaf a => rw [map, map, h a (by simp [leaves])]
  | node s1 s2 op ih1 ih2 =>
    have h1 := ih1 fun a ha => h a (by simp [leaves, ha])
    have h2 := ih2 fun a ha => h a (by simp [leaves, ha])
    simp only [map, h1, h2]

theorem mem_leaves_bind {f : α → Formula ω β} {t : Formula ω α} {b : β} :
    b ∈ (t.bind f).leaves ↔ ∃ a ∈ t.leaves, b ∈ (f a).leaves := by
  induction t with
  | leaf a => simp [bind, leaves]
  | node s1 s2 op ih1 ih2 => simp only [bind, leaves, List.mem_append, ih1, ih2]; grind

end Formula

end Lib
