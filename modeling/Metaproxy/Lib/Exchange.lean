import Mathlib.Data.List.Basic

/-!
# Lib.Exchange

A line on which one side asks and the other answers. Answers may be underway for any time, and are
taken in the order in which they were given.

* `InTurn` — one thing is asked at a time, and the other side gives no more answers than it has been
  asked for.
* `Settled` — everything asked has been answered, and the answer taken.
* `Waits` — all but the last has. What is then taken is the answer to the last (`Waits.take`), so a
  side that asks only when it is settled never takes an answer for another one.
-/

namespace Lib

structure Exchange (α β : Type*) where
  asked : List α
  answers : List β
  /-- How many answers have been taken. -/
  taken : Nat

namespace Exchange

variable {α β : Type*} {x : Exchange α β} {a : α} {b : β}

def new : Exchange α β := ⟨[], [], 0⟩

def ask (x : Exchange α β) (a : α) : Exchange α β := { x with asked := x.asked ++ [a] }

def answer (x : Exchange α β) (b : β) : Exchange α β := { x with answers := x.answers ++ [b] }

def take (x : Exchange α β) : Exchange α β := { x with taken := x.taken + 1 }

/-- The answers underway. -/
def pending (x : Exchange α β) : List β := x.answers.drop x.taken

structure InTurn (x : Exchange α β) : Prop where
  taken_le : x.taken ≤ x.answers.length
  answers_le : x.answers.length ≤ x.asked.length
  asked_le : x.asked.length ≤ x.taken + 1

def Settled (x : Exchange α β) : Prop := x.taken = x.asked.length

def Waits (x : Exchange α β) : Prop := x.taken + 1 = x.asked.length

/-- The last answer given is the one to the last thing asked. -/
structure Last (x : Exchange α β) (a : α) (b : β) : Prop where
  asked : x.asked.getLast? = some a
  answers : x.answers.getLast? = some b
  both : x.answers.length = x.asked.length

theorem InTurn.new : InTurn (new : Exchange α β) :=
  ⟨Nat.le_refl _, Nat.le_refl _, Nat.zero_le _⟩

theorem settled_new : Settled (new : Exchange α β) := rfl

theorem InTurn.ask (h : InTurn x) (hsettled : Settled x) (a : α) : InTurn (x.ask a) where
  taken_le := h.taken_le
  answers_le := by
    have hle := h.answers_le
    simp only [Exchange.ask, List.length_append]
    exact Nat.le_trans hle (Nat.le_add_right _ _)
  asked_le := by
    have hlen : x.taken = x.asked.length := hsettled
    simp [Exchange.ask, hlen]

theorem InTurn.answer (h : InTurn x) (hlt : x.answers.length < x.asked.length) (b : β) :
    InTurn (x.answer b) where
  taken_le := by
    have hle := h.taken_le
    simp only [Exchange.answer, List.length_append]
    exact Nat.le_trans hle (Nat.le_add_right _ _)
  answers_le := by
    simp only [Exchange.answer, List.length_append, List.length_singleton]
    exact hlt
  asked_le := h.asked_le

theorem InTurn.take (h : InTurn x) (hpending : x.pending ≠ []) : InTurn x.take where
  taken_le := by
    have hlt := List.length_pos_iff.mpr hpending
    rw [pending, List.length_drop] at hlt
    exact Nat.lt_of_sub_pos hlt
  answers_le := h.answers_le
  asked_le := Nat.le_succ_of_le h.asked_le

theorem Settled.ask (h : Settled x) (a : α) : Waits (x.ask a) := by
  have hlen : x.taken = x.asked.length := h
  simp [Waits, Exchange.ask, hlen]

theorem getLast_ask (x : Exchange α β) (a : α) : (x.ask a).asked.getLast? = some a :=
  List.getLast?_concat

/-- One answer is underway at most. -/
theorem InTurn.pending_length (h : InTurn x) : x.pending.length ≤ 1 := by
  have hle := Nat.le_trans h.answers_le h.asked_le
  rw [pending, List.length_drop]
  omega

/-- However many are looked for. -/
theorem InTurn.take_pending (h : InTurn x) {n : Nat} (hn : n < x.pending.length) :
    ∃ b, x.pending.take (n + 1) = [b] ∧ x.pending.head? = some b := by
  have hone := h.pending_length
  obtain ⟨b, hb⟩ := List.length_eq_one_iff.mp (by omega : x.pending.length = 1)
  have hzero : n = 0 := by omega
  refine ⟨b, ?_, ?_⟩
  · rw [hb, hzero]
    rfl
  · rw [hb]
    rfl

theorem Waits.take (h : InTurn x) (hwaits : Waits x) (hlast : x.asked.getLast? = some a)
    (hpending : x.pending.head? = some b) : Settled x.take ∧ Last x.take a b := by
  have hlen : x.taken + 1 = x.asked.length := hwaits
  have hlt : x.taken < x.answers.length := by
    by_contra hge
    rw [pending, List.drop_eq_nil_of_le (Nat.le_of_not_lt hge)] at hpending
    cases hpending
  have hboth : x.answers.length = x.asked.length := by
    have hle := h.answers_le
    omega
  refine ⟨hlen, hlast, ?_, hboth⟩
  rw [pending, List.head?_drop] at hpending
  rw [Exchange.take, List.getLast?_eq_getElem?, hboth, ← hlen]
  exact hpending

end Exchange

end Lib
