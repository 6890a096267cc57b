import Mathlib.Data.List.Basic
import Mathlib.Data.List.Perm.Basic

/-!
# Lib.Greedy

Taking elements out of a list one after the other, each time the first one of least cost. Costs may
change from one choice to the next.

* `FirstLeast` — one choice.
* `Greedy` — a sequence of them; `Greedy.perm`: every element is taken at most once.
-/

namespace Lib

variable {α : Type*}

/-- `x` is the first of least cost among the elements of `l` that count, and `rest` are the
others. -/
def FirstLeast (counts : α → Prop) (cost : α → Nat) (l : List α) (x : α) (rest : List α) : Prop :=
  ∃ before after, l = before ++ x :: after ∧ rest = before ++ after ∧ counts x ∧
    (∀ y ∈ before, counts y → cost x < cost y) ∧ ∀ y ∈ after, counts y → cost x ≤ cost y

structure Choice (α : Type*) where
  cost : α → Nat
  taken : α

inductive Greedy (counts : α → Prop) (l : List α) : List (Choice α) → List α → Prop where
  | nil : Greedy counts l [] l
  | snoc {choices : List (Choice α)} {rest rest' : List α} {c : Choice α} :
      Greedy counts l choices rest → FirstLeast counts c.cost rest c.taken rest' →
        Greedy counts l (choices ++ [c]) rest'

section

variable {counts : α → Prop} {cost : α → Nat} {l rest : List α} {x : α}

theorem FirstLeast.perm (h : FirstLeast counts cost l x rest) : (x :: rest).Perm l := by
  obtain ⟨before, after, rfl, rfl, -⟩ := h
  exact List.perm_middle.symm

theorem FirstLeast.counts_taken (h : FirstLeast counts cost l x rest) : counts x := by
  obtain ⟨before, after, -, -, hx, -⟩ := h
  exact hx

theorem FirstLeast.le (h : FirstLeast counts cost l x rest) {y : α} (hy : y ∈ l)
    (hcounts : counts y) : cost x ≤ cost y := by
  obtain ⟨before, after, rfl, -, -, hbefore, hafter⟩ := h
  rcases List.mem_append.mp hy with hy | hy
  · exact Nat.le_of_lt (hbefore y hy hcounts)
  · rcases List.mem_cons.mp hy with rfl | hy
    · exact Nat.le_refl _
    · exact hafter y hy hcounts

variable {choices : List (Choice α)}

/-- What was taken and what is left make up the list. -/
theorem Greedy.perm (h : Greedy counts l choices rest) :
    (choices.map Choice.taken ++ rest).Perm l := by
  induction h with
  | nil => exact List.Perm.refl l
  | @snoc choices rest rest' c _ hleast ih =>
    refine List.Perm.trans ?_ ih
    rw [List.map_append, List.append_assoc]
    exact List.Perm.append_left _ hleast.perm

theorem Greedy.counts_taken (h : Greedy counts l choices rest) : ∀ c ∈ choices, counts c.taken := by
  induction h with
  | nil => simp
  | snoc _ hleast ih =>
    intro c hc
    rcases List.mem_append.mp hc with hc | hc
    · exact ih c hc
    · rw [List.mem_singleton.mp hc]
      exact hleast.counts_taken

end

end Lib
