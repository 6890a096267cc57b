import Mathlib.Logic.Function.Basic

/-!
# Lib.Pool

A pool of items that holders take and give back, each holder one item at a time.

* `Pool.Sound` — the items in use are those that are held, each by one holder.
* `Pool.Balanced` — a holder has given back what it took, but for the item it holds.
-/

namespace Lib

structure Pool (κ ι : Type*) where
  /-- Whether the item is in use; `none` when it is not in the pool. -/
  status : ι → Option Bool
  holds : κ → Option ι

namespace Pool

variable {κ ι : Type*} {p p' : Pool κ ι} {k : κ} {i : ι}

structure Sound (p : Pool κ ι) : Prop where
  inUse : ∀ k i, p.holds k = some i → p.status i = some true
  held : ∀ i, p.status i = some true → ∃ k, p.holds k = some i
  unique : ∀ k k' i, p.holds k = some i → p.holds k' = some i → k = k'

/-- Nothing is held, or taken, or given back. -/
theorem Sound.idle (h : p.Sound) (hholds : p'.holds = p.holds)
    (hstatus : ∀ i, p'.status i = some true ↔ p.status i = some true) : p'.Sound where
  inUse k i hk := (hstatus i).mpr (h.inUse k i (hholds ▸ hk))
  held i hi := by
    rw [hholds]
    exact h.held i ((hstatus i).mp hi)
  unique k k' i hk hk' := by
    rw [hholds] at hk hk'
    exact h.unique k k' i hk hk'

theorem Sound.start (hholds : ∀ k, p.holds k = none) (hstatus : ∀ i, p.status i = none) :
    p.Sound where
  inUse k i hk := by simp [hholds k] at hk
  held i hi := by simp [hstatus i] at hi
  unique k k' i hk := by simp [hholds k] at hk

variable [DecidableEq κ] [DecidableEq ι]

/-- A holder takes an item, which may be new. -/
def take (p : Pool κ ι) (k : κ) (i : ι) : Pool κ ι where
  status := Function.update p.status i (some true)
  holds := Function.update p.holds k (some i)

/-- A holder gives its item back: it becomes idle (`some false`) or leaves the pool (`none`). -/
def giveBack (p : Pool κ ι) (k : κ) (i : ι) (v : Option Bool) : Pool κ ι where
  status := Function.update p.status i v
  holds := Function.update p.holds k none

theorem holds_take (k' : κ) (i' : ι) :
    (p.take k i).holds k' = some i' ↔
      (k' = k ∧ i' = i) ∨ (k' ≠ k ∧ p.holds k' = some i') := by
  unfold take
  by_cases hk : k' = k
  · subst hk
    simp [eq_comm]
  · simp [hk]

theorem holds_giveBack {v : Option Bool} (k' : κ) (i' : ι) :
    (p.giveBack k i v).holds k' = some i' ↔ k' ≠ k ∧ p.holds k' = some i' := by
  unfold giveBack
  by_cases hk : k' = k
  · subst hk
    simp
  · simp [hk]

theorem Sound.take (h : p.Sound) (hk : p.holds k = none) (hi : p.status i ≠ some true) :
    (p.take k i).Sound where
  inUse k' i' hk' := by
    rcases (holds_take k' i').mp hk' with ⟨-, rfl⟩ | ⟨-, hold⟩
    · simp [Pool.take]
    · have hne : i' ≠ i := fun heq => hi (heq ▸ h.inUse k' i' hold)
      simpa [Pool.take, hne] using h.inUse k' i' hold
  held i' hi' := by
    by_cases hne : i' = i
    · exact ⟨k, (holds_take k i').mpr (.inl ⟨rfl, hne⟩)⟩
    · have hold : p.status i' = some true := by simpa [Pool.take, hne] using hi'
      obtain ⟨k', hk'⟩ := h.held i' hold
      have hkk : k' ≠ k := fun heq => by simp [heq, hk] at hk'
      exact ⟨k', (holds_take k' i').mpr (.inr ⟨hkk, hk'⟩)⟩
  unique k' k'' i' h' h'' := by
    rcases (holds_take k' i').mp h' with ⟨rfl, rfl⟩ | ⟨-, hold'⟩
    · rcases (holds_take k'' i').mp h'' with ⟨rfl, -⟩ | ⟨-, hold''⟩
      · rfl
      · exact absurd (h.inUse k'' i' hold'') hi
    · rcases (holds_take k'' i').mp h'' with ⟨-, rfl⟩ | ⟨-, hold''⟩
      · exact absurd (h.inUse k' i' hold') hi
      · exact h.unique k' k'' i' hold' hold''

theorem Sound.giveBack {v : Option Bool} (h : p.Sound) (hk : p.holds k = some i)
    (hv : v ≠ some true) : (p.giveBack k i v).Sound where
  inUse k' i' hk' := by
    obtain ⟨hkk, hold⟩ := (holds_giveBack k' i').mp hk'
    have hne : i' ≠ i := fun heq => hkk (h.unique k' k i' hold (heq ▸ hk))
    simpa [Pool.giveBack, hne] using h.inUse k' i' hold
  held i' hi' := by
    have hne : i' ≠ i := by
      rintro rfl
      exact hv (by simpa [Pool.giveBack] using hi')
    have hold : p.status i' = some true := by simpa [Pool.giveBack, hne] using hi'
    obtain ⟨k', hk'⟩ := h.held i' hold
    have hkk : k' ≠ k := by
      rintro rfl
      rw [hk] at hk'
      cases hk'
      exact hne rfl
    exact ⟨k', (holds_giveBack k' i').mpr ⟨hkk, hk'⟩⟩
  unique k' k'' i' h' h'' :=
    h.unique k' k'' i' ((holds_giveBack k' i').mp h').2 ((holds_giveBack k'' i').mp h'').2

/-- `taken` and `given` count how often a holder has taken an item and given it back. -/
def Balanced (p : Pool κ ι) (taken given : κ → ι → Nat) : Prop :=
  ∀ k i, taken k i = given k i + if p.holds k = some i then 1 else 0

variable {taken given : κ → ι → Nat}

theorem Balanced.take (h : p.Balanced taken given) (hk : p.holds k = none) :
    (p.take k i).Balanced (fun k' i' => taken k' i' + if k = k' ∧ i = i' then 1 else 0) given := by
  intro k' i'
  have hold := h k' i'
  by_cases hkk : k = k'
  · subst hkk
    rw [hk, if_neg (by simp)] at hold
    simp only [Pool.take, Function.update_self, Option.some.injEq, true_and]
    omega
  · have hne : ¬ k' = k := fun heq => hkk heq.symm
    simp only [hkk, false_and, if_false, Pool.take, Function.update_of_ne hne]
    omega

theorem Balanced.giveBack {v : Option Bool} (h : p.Balanced taken given)
    (hk : p.holds k = some i) :
    (p.giveBack k i v).Balanced taken
      (fun k' i' => given k' i' + if k = k' ∧ i = i' then 1 else 0) := by
  intro k' i'
  have hold := h k' i'
  by_cases hkk : k = k'
  · subst hkk
    rw [hk] at hold
    simp only [Option.some.injEq] at hold
    simp only [Pool.giveBack, Function.update_self, reduceCtorEq, if_false, true_and]
    omega
  · have hne : ¬ k' = k := fun heq => hkk heq.symm
    simp only [hkk, false_and, if_false, Pool.giveBack, Function.update_of_ne hne]
    omega

end Pool

end Lib
