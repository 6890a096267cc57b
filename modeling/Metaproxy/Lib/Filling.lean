import Mathlib.Algebra.BigOperators.Group.Finset.Basic
import Mathlib.Algebra.Order.Group.Nat
import Mathlib.Data.Finset.Range

/-!
# Lib.Filling

Something that is filled up to a total by one amount after the other, as they come; an amount that
is `none` ends it.

* `Wants` — another amount is wanted.
* `ends_iff` — at some point none is, unless from some point on only empty ones come.
* `exists_filled` — when no amount is too large, it is full then.
-/

namespace Lib

variable {amount : Nat → Option Nat} {total m n : Nat}

/-- What has come before amount `n`. -/
def filled (amount : Nat → Option Nat) (n : Nat) : Nat :=
  ∑ k ∈ Finset.range n, (amount k).getD 0

@[simp] theorem filled_zero : filled amount 0 = 0 := rfl

theorem filled_succ : filled amount (n + 1) = filled amount n + (amount n).getD 0 :=
  Finset.sum_range_succ _ n

theorem filled_mono (h : m ≤ n) : filled amount m ≤ filled amount n := by
  induction n, h using Nat.le_induction with
  | base => exact Nat.le_refl _
  | succ n _ ih =>
    rw [filled_succ]
    omega

/-- Amount `n` is wanted. -/
structure Wants (amount : Nat → Option Nat) (total n : Nat) : Prop where
  goesOn : ∀ k < n, (amount k).isSome
  below : filled amount n < total

theorem Wants.of_le (h : Wants amount total n) (hm : m ≤ n) : Wants amount total m where
  goesOn k hk := h.goesOn k (Nat.lt_of_lt_of_le hk hm)
  below := Nat.lt_of_le_of_lt (filled_mono hm) h.below

theorem wants_succ : Wants amount total (n + 1) ↔
    Wants amount total n ∧ ∃ a, amount n = some a ∧ filled amount n + a < total := by
  constructor
  · intro h
    obtain ⟨a, ha⟩ := Option.isSome_iff_exists.mp (h.goesOn n (Nat.lt_succ_self n))
    have hbelow := h.below
    rw [filled_succ, ha] at hbelow
    exact ⟨h.of_le (Nat.le_succ n), a, ha, hbelow⟩
  · rintro ⟨h, a, ha, hbelow⟩
    refine ⟨?_, ?_⟩
    · intro k hk
      rcases Nat.lt_succ_iff_lt_or_eq.mp hk with hk | rfl
      · exact h.goesOn k hk
      · rw [ha]
        rfl
    · rw [filled_succ, ha]
      exact hbelow

/-- Amounts keep being wanted, and from some point on they are empty. -/
def Stalls (amount : Nat → Option Nat) (total : Nat) : Prop :=
  ∃ n, Wants amount total n ∧ ∀ k, n ≤ k → amount k = some 0

/-- An amount is larger than what is left. -/
def Overruns (amount : Nat → Option Nat) (total : Nat) : Prop :=
  ∃ n a, Wants amount total n ∧ amount n = some a ∧ total < filled amount n + a

theorem Stalls.wants (h : Stalls amount total) (n : Nat) : Wants amount total n := by
  obtain ⟨m, hm, hempty⟩ := h
  rcases Nat.le_total n m with hle | hle
  · exact hm.of_le hle
  · induction n, hle using Nat.le_induction with
    | base => exact hm
    | succ n hn ih =>
      refine wants_succ.mpr ⟨ih, 0, hempty n hn, ?_⟩
      exact ih.below

theorem stalls_of_wants (h : ∀ n, Wants amount total n) : Stalls amount total := by
  -- by induction on what is left
  have hleft : ∀ left n, total - filled amount n = left → Stalls amount total := by
    intro left
    induction left using Nat.strong_induction_on with
    | _ left ih =>
      intro n hn
      by_cases hempty : ∀ k, n ≤ k → amount k = some 0
      · exact ⟨n, h n, hempty⟩
      · push Not at hempty
        obtain ⟨k, hk, hne⟩ := hempty
        obtain ⟨-, a, ha, hbelow⟩ := wants_succ.mp (h (k + 1))
        have hpos : a ≠ 0 := by
          rintro rfl
          exact hne ha
        have hmono : filled amount n ≤ filled amount k := filled_mono hk
        have hsucc : filled amount (k + 1) = filled amount k + a := by
          rw [filled_succ, ha]
          rfl
        exact ih (total - filled amount (k + 1)) (by omega) (k + 1) rfl
  exact hleft _ 0 rfl

theorem ends_iff : (∃ n, ¬ Wants amount total n) ↔ ¬ Stalls amount total := by
  constructor
  · rintro ⟨n, hn⟩ hstalls
    exact hn (hstalls.wants n)
  · intro hstalls
    by_contra hwants
    push Not at hwants
    exact hstalls (stalls_of_wants hwants)

theorem exists_last (h : ¬ Stalls amount total) (hpos : 0 < total) :
    ∃ n, Wants amount total n ∧ ¬ Wants amount total (n + 1) := by
  obtain ⟨n, hn⟩ := ends_iff.mpr h
  induction n with
  | zero => exact absurd ⟨fun k hk => absurd hk (Nat.not_lt_zero k), hpos⟩ hn
  | succ n ih =>
    by_cases hwants : Wants amount total n
    · exact ⟨n, hwants, hn⟩
    · exact ih hwants

theorem exists_filled (hstalls : ¬ Stalls amount total) (hover : ¬ Overruns amount total)
    (hsome : ∀ n, Wants amount total n → (amount n).isSome) :
    ∃ n, (∀ k < n, Wants amount total k) ∧ filled amount n = total := by
  rcases Nat.eq_zero_or_pos total with rfl | hpos
  · exact ⟨0, fun k hk => absurd hk (Nat.not_lt_zero k), rfl⟩
  · obtain ⟨n, hwants, hlast⟩ := exists_last hstalls hpos
    obtain ⟨a, ha⟩ := Option.isSome_iff_exists.mp (hsome n hwants)
    refine ⟨n + 1, fun k hk => hwants.of_le (Nat.le_of_lt_succ hk), ?_⟩
    have hsucc : filled amount (n + 1) = filled amount n + a := by
      rw [filled_succ, ha]
      rfl
    have hle : ¬ total < filled amount n + a := fun hlt => hover ⟨n, a, hwants, ha, hlt⟩
    have hge : ¬ filled amount n + a < total := fun hlt =>
      hlast (wants_succ.mpr ⟨hwants, a, ha, hlt⟩)
    omega

end Lib
