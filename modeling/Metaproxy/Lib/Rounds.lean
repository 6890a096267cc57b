import Mathlib.Algebra.Order.Ring.Nat
import Mathlib.Data.List.Nodup
import Mathlib.Algebra.BigOperators.Group.List.Basic
import Mathlib.Algebra.Order.BigOperators.Group.List

/-!
# Lib.Rounds

Serving queues in rounds. A queue is an item with the number of its positions; round `r` has the
pair `(a, r)` for every queue `a` of at least `r` positions, in list order.

* `after l q` — rounds `q + 1`, `q + 2`, … until all queues are served; `interleave l` all rounds.
* `after_eq_drop` — what rounds `1 … q` leave is `interleave l` less its first
  `∑ min c q` pairs.
* `mem_interleave`, `nodup_interleave` — every position is served, and once.
* `pairwise_interleave` — the positions of a queue come in their order.
* `take_drop_inj` — two windows of a list without duplicates are equal only when they start at the
  same place, have no elements, or start past the end.
-/

namespace Lib

variable {α : Type*}

def nthRound (l : List (α × Nat)) (r : Nat) : List (α × Nat) :=
  (l.filter fun e => r ≤ e.2).map fun e => (e.1, r)

def height (l : List (α × Nat)) : Nat :=
  (l.map Prod.snd).foldr max 0

def after (l : List (α × Nat)) (q : Nat) : List (α × Nat) :=
  (List.range' (q + 1) (height l - q)).flatMap (nthRound l)

def interleave (l : List (α × Nat)) : List (α × Nat) :=
  after l 0

theorem le_height {l : List (α × Nat)} {e : α × Nat} (h : e ∈ l) : e.2 ≤ height l := by
  induction l with
  | nil => cases h
  | cons e' l ih =>
    have hcons : height (e' :: l) = max e'.2 (height l) := rfl
    rcases List.mem_cons.mp h with rfl | h
    · omega
    · have := ih h
      omega

theorem mem_nthRound {l : List (α × Nat)} {r : Nat} {a : α} {x : Nat} :
    (a, x) ∈ nthRound l r ↔ x = r ∧ ∃ c, (a, c) ∈ l ∧ r ≤ c := by
  simp only [nthRound, List.mem_map, List.mem_filter, decide_eq_true_eq, Prod.mk.injEq, Prod.exists]
  constructor
  · rintro ⟨a', c, ⟨hmem, hle⟩, rfl, rfl⟩
    exact ⟨rfl, c, hmem, hle⟩
  · rintro ⟨rfl, c, hmem, hle⟩
    exact ⟨a, c, ⟨hmem, hle⟩, rfl, rfl⟩

theorem nthRound_eq_nil {l : List (α × Nat)} {r : Nat} (h : height l < r) : nthRound l r = [] := by
  simp only [nthRound, List.map_eq_nil_iff, List.filter_eq_nil_iff, decide_eq_true_eq]
  intro e he
  have := le_height he
  omega

theorem after_eq_nil {l : List (α × Nat)} {q : Nat} (h : height l ≤ q) : after l q = [] := by
  have h0 : height l - q = 0 := by omega
  simp [after, h0]

/-- The next round comes first. -/
theorem after_succ (l : List (α × Nat)) (q : Nat) :
    after l q = nthRound l (q + 1) ++ after l (q + 1) := by
  rcases Nat.lt_or_ge q (height l) with h | h
  · have hn : height l - q = height l - (q + 1) + 1 := by omega
    rw [after, hn, List.range'_succ, List.flatMap_cons, after]
  · rw [after_eq_nil h, after_eq_nil (by omega), nthRound_eq_nil (by omega), List.append_nil]

theorem after_of_nthRound_eq_nil {l : List (α × Nat)} {q : Nat} (h : nthRound l (q + 1) = []) :
    after l q = [] := by
  simp only [nthRound, List.map_eq_nil_iff, List.filter_eq_nil_iff, decide_eq_true_eq] at h
  simp only [after, List.flatMap_eq_nil_iff, List.mem_range'_1, nthRound, List.map_eq_nil_iff,
    List.filter_eq_nil_iff, decide_eq_true_eq]
  intro r hr e he
  have := h e he
  omega

theorem length_nthRound (l : List (α × Nat)) (q : Nat) :
    (nthRound l (q + 1)).length + (l.map fun e => e.2 - (q + 1)).sum =
      (l.map fun e => e.2 - q).sum := by
  induction l with
  | nil => rfl
  | cons e l ih =>
    simp only [nthRound, List.length_map] at ih ⊢
    by_cases h : q + 1 ≤ e.2
    · rw [List.filter_cons_of_pos (by simpa using h)]
      simp only [List.map_cons, List.sum_cons, List.length_cons]
      omega
    · rw [List.filter_cons_of_neg (by simpa using h)]
      simp only [List.map_cons, List.sum_cons]
      omega

theorem length_after (l : List (α × Nat)) (q : Nat) :
    (after l q).length = (l.map fun e => e.2 - q).sum := by
  induction hn : height l - q generalizing q with
  | zero =>
    rw [after_eq_nil (by omega)]
    have hzero : ∀ x ∈ l.map fun e => e.2 - q, x = 0 := by
      intro x hx
      obtain ⟨e, he, rfl⟩ := List.mem_map.mp hx
      have := le_height he
      omega
    rw [List.sum_eq_zero hzero]
    rfl
  | succ n ih =>
    rw [after_succ, List.length_append, ih (q + 1) (by omega), length_nthRound]

theorem length_interleave (l : List (α × Nat)) :
    (interleave l).length = (l.map Prod.snd).sum :=
  length_after l 0

theorem sum_min_add_sum_sub (l : List (α × Nat)) (q : Nat) :
    (l.map fun e => min e.2 q).sum + (l.map fun e => e.2 - q).sum = (l.map Prod.snd).sum := by
  rw [← List.sum_map_add]
  congr 1
  refine List.map_congr_left fun e _ => ?_
  omega

theorem after_eq_drop (l : List (α × Nat)) (q : Nat) :
    after l q = (interleave l).drop (l.map fun e => min e.2 q).sum := by
  have hsuffix : ∃ first, interleave l = first ++ after l q := by
    induction q with
    | zero => exact ⟨[], rfl⟩
    | succ q ih =>
      obtain ⟨first, h⟩ := ih
      exact ⟨first ++ nthRound l (q + 1), by rw [h, after_succ l q, List.append_assoc]⟩
  obtain ⟨first, h⟩ := hsuffix
  have hlen : first.length = (l.map fun e => min e.2 q).sum := by
    have h1 := congrArg List.length h
    rw [List.length_append, length_interleave, length_after, ← sum_min_add_sum_sub l q] at h1
    omega
  rw [h, ← hlen, List.drop_left]

theorem mem_interleave {l : List (α × Nat)} {a : α} {r : Nat} :
    (a, r) ∈ interleave l ↔ 1 ≤ r ∧ ∃ c, (a, c) ∈ l ∧ r ≤ c := by
  simp only [interleave, after, List.mem_flatMap, List.mem_range'_1, mem_nthRound]
  constructor
  · rintro ⟨r', hr', rfl, hc⟩
    exact ⟨by omega, hc⟩
  · rintro ⟨hr, c, hmem, hle⟩
    have : c ≤ height l := le_height hmem
    exact ⟨r, by omega, rfl, c, hmem, hle⟩

theorem nodup_map_nthRound {l : List (α × Nat)} (h : (l.map Prod.fst).Nodup) (r : Nat) :
    ((nthRound l r).map Prod.fst).Nodup := by
  have hmap : (nthRound l r).map Prod.fst = (l.filter fun e => r ≤ e.2).map Prod.fst := by
    simp [nthRound, Function.comp_def]
  rw [hmap]
  exact h.sublist (List.filter_sublist.map _)

theorem nodup_nthRound {l : List (α × Nat)} (h : (l.map Prod.fst).Nodup) (r : Nat) :
    (nthRound l r).Nodup :=
  .of_map Prod.fst (nodup_map_nthRound h r)

theorem nodup_interleave {l : List (α × Nat)} (h : (l.map Prod.fst).Nodup) :
    (interleave l).Nodup := by
  rw [interleave, after, List.nodup_flatMap]
  refine ⟨fun r _ => nodup_nthRound h r, ?_⟩
  have hrange : (List.range' (0 + 1) (height l - 0)).Nodup := List.nodup_range'
  refine hrange.imp fun {r r'} hne => ?_
  intro p hp hp'
  obtain ⟨a, x⟩ := p
  exact hne ((mem_nthRound.mp hp).1.symm.trans (mem_nthRound.mp hp').1)

/-- The positions of a queue come in their order. -/
theorem pairwise_interleave {l : List (α × Nat)} (h : (l.map Prod.fst).Nodup) :
    (interleave l).Pairwise fun e e' => e.1 = e'.1 → e.2 < e'.2 := by
  rw [interleave, after, List.pairwise_flatMap]
  constructor
  · intro r _
    exact (List.pairwise_map.mp (nodup_map_nthRound h r)).imp fun hne heq => absurd heq hne
  · refine (List.pairwise_lt_range' 1).imp fun {r r'} hlt e he e' he' _ => ?_
    obtain ⟨a, x⟩ := e
    obtain ⟨a', x'⟩ := e'
    have := (mem_nthRound.mp he).1
    have := (mem_nthRound.mp he').1
    simp only
    omega

theorem take_drop_inj {l : List α} (h : l.Nodup) {n a b : Nat} :
    (l.drop a).take n = (l.drop b).take n ↔
      n = 0 ∨ a = b ∨ (l.length ≤ a ∧ l.length ≤ b) := by
  constructor
  · intro heq
    rcases Nat.eq_zero_or_pos n with h0 | hn
    · exact .inl h0
    have hhead : l[a]? = l[b]? := by
      have h1 := congrArg (·[0]?) heq
      simpa [List.getElem?_take, hn] using h1
    rcases Nat.lt_or_ge a l.length with ha | ha
    · exact .inr (.inl ((List.getElem?_inj ha h).mp hhead))
    · rw [List.getElem?_eq_none ha] at hhead
      exact .inr (.inr ⟨ha, List.getElem?_eq_none_iff.mp hhead.symm⟩)
  · rintro (rfl | rfl | ⟨ha, hb⟩)
    · simp
    · rfl
    · rw [List.drop_of_length_le ha, List.drop_of_length_le hb]

end Lib
