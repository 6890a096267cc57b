import Mathlib.Data.List.AList

/-!
# Lib.Table

Finite tables with unique keys: `AList` at a constant value type.

* `lookup_insert_iff`, `lookup_erase_iff` — what a changed table holds.
* `lookup_of_getElem`, `getElem_of_lookup` — the entries as a list.
* `count` — the number of keys whose value meets a condition, under insertion and erasure.
* `put` — both as one operation.
* `holders` — the number of keys that hold a given value.
-/

namespace Lib

abbrev Table (κ ν : Type*) := AList fun _ : κ => ν

namespace Table

section Lookup

variable {κ ν : Type*} [DecidableEq κ] {t : Table κ ν} {k k' : κ} {v w : ν}

theorem lookup_insert_iff :
    (t.insert k v).lookup k' = some w ↔ (k' = k ∧ v = w) ∨ (k' ≠ k ∧ t.lookup k' = some w) := by
  by_cases h : k' = k
  · subst h
    simp [AList.lookup_insert]
  · simp [AList.lookup_insert_ne h, h]

theorem lookup_erase_iff :
    (t.erase k).lookup k' = some w ↔ k' ≠ k ∧ t.lookup k' = some w := by
  by_cases h : k' = k
  · subst h
    simp [AList.lookup_erase]
  · simp [AList.lookup_erase_ne h, h]

theorem lookup_of_erase (h : (t.erase k).lookup k' = some w) : t.lookup k' = some w :=
  (lookup_erase_iff.mp h).2

/-- A new key leaves the others as they are. -/
theorem lookup_insert_of (hnone : t.lookup k = none) (v : ν) (h : t.lookup k' = some w) :
    (t.insert k v).lookup k' = some w := by
  refine lookup_insert_iff.mpr (.inr ⟨?_, h⟩)
  rintro rfl
  rw [hnone] at h
  cases h

theorem lookup_of_getElem {n : Nat} (h : t.entries[n]? = some ⟨k, v⟩) : t.lookup k = some v :=
  AList.mem_lookup_iff.mpr (List.mem_of_getElem? h)

theorem getElem_of_lookup (h : t.lookup k = some v) : ∃ n : Nat, t.entries[n]? = some ⟨k, v⟩ :=
  List.mem_iff_getElem?.mp (AList.mem_lookup_iff.mp h)

end Lookup

/-! ## Counting -/

section Count

variable {κ ν : Type*}

/-- How many keys hold a value with `q`. -/
def count (q : ν → Bool) (t : Table κ ν) : Nat :=
  t.entries.countP fun e => q e.2

variable [DecidableEq κ] {q q' : ν → Bool} {t : Table κ ν} {k : κ} {v : ν}

theorem perm_kerase {w : ν} {l : List (Σ _ : κ, ν)} (h : l.dlookup k = some w) :
    l.Perm (⟨k, w⟩ :: l.kerase k) := by
  induction l with
  | nil => cases h
  | cons e l ih =>
    by_cases hk : k = e.1
    · obtain ⟨k', w'⟩ := e
      cases hk
      rw [List.dlookup_cons_eq] at h
      cases h
      rw [List.kerase_cons_eq rfl]
    · rw [List.dlookup_cons_ne _ _ hk] at h
      rw [List.kerase_cons_ne hk]
      exact ((ih h).cons e).trans (.swap _ _ _)

theorem count_erase (q : ν → Bool) (t : Table κ ν) (k : κ) :
    count q (t.erase k) + (if (t.lookup k).any q then 1 else 0) = count q t := by
  have herase : (t.erase k).entries = t.entries.kerase k := rfl
  unfold count
  rw [herase]
  cases h : t.lookup k with
  | none =>
    have hk : k ∉ t.entries.keys := List.dlookup_eq_none.mp h
    rw [List.kerase_of_notMem_keys hk]
    simp
  | some w =>
    rw [(perm_kerase h).countP_eq, List.countP_cons]
    simp

theorem count_insert (q : ν → Bool) (t : Table κ ν) (k : κ) (v : ν) :
    count q (t.insert k v) = count q (t.erase k) + if q v then 1 else 0 := by
  unfold count
  rw [AList.entries_insert, List.countP_cons]
  rfl

theorem count_pos (h : t.lookup k = some v) (hq : q v = true) : 0 < count q t :=
  List.countP_pos_iff.mpr ⟨⟨k, v⟩, AList.mem_lookup_iff.mp h, hq⟩

theorem count_eq_zero_iff : count q t = 0 ↔ ∀ k v, t.lookup k = some v → q v = false := by
  unfold count
  rw [List.countP_eq_zero]
  constructor
  · intro h k v hv
    exact Bool.eq_false_iff.mpr (h ⟨k, v⟩ (AList.mem_lookup_iff.mp hv))
  · rintro h ⟨k, v⟩ hmem hq
    have hv := h k v (AList.mem_lookup_iff.mpr hmem)
    rw [hv] at hq
    cases hq

/-- Only the values that the table holds matter. -/
theorem count_congr (h : ∀ k v, t.lookup k = some v → q v = q' v) : count q t = count q' t := by
  refine List.countP_congr ?_
  rintro ⟨k, v⟩ hmem
  rw [h k v (AList.mem_lookup_iff.mpr hmem)]

end Count

/-! ## Assignment -/

section Put

variable {κ ν : Type*} [DecidableEq κ]

/-- A key gets a value, or none. -/
def put (t : Table κ ν) (k : κ) : Option ν → Table κ ν
  | some v => t.insert k v
  | none => t.erase k

theorem lookup_put (t : Table κ ν) (k k' : κ) (o : Option ν) :
    (t.put k o).lookup k' = if k' = k then o else t.lookup k' := by
  cases o with
  | none =>
    by_cases h : k' = k
    · rw [if_pos h, h]
      exact AList.lookup_erase k t
    · rw [if_neg h]
      exact AList.lookup_erase_ne h
  | some v =>
    by_cases h : k' = k
    · rw [if_pos h, h]
      exact AList.lookup_insert t
    · rw [if_neg h]
      exact AList.lookup_insert_ne h

/-- The old value is taken out of the count and the new one put in. -/
theorem count_put (q : ν → Bool) (t : Table κ ν) (k : κ) (o : Option ν) :
    count q (t.put k o) + (if (t.lookup k).any q then 1 else 0) =
      count q t + if o.any q then 1 else 0 := by
  have herase := count_erase q t k
  cases o with
  | none => simpa [put] using herase
  | some v =>
    have hinsert := count_insert q t k v
    simp only [put, Option.any_some]
    omega

end Put

/-! ## Holders -/

variable {κ ν : Type*} [DecidableEq ν]

/-- How many keys hold `v`. -/
def holders (t : Table κ ν) (v : ν) : Nat :=
  t.entries.countP fun e => e.2 = v

@[simp] theorem holders_empty (v : ν) : holders (∅ : Table κ ν) v = 0 := rfl

variable [DecidableEq κ]

/-- A fresh key adds one holder of its value. -/
theorem holders_insert {t : Table κ ν} {k : κ} (h : k ∉ t) (w v : ν) :
    holders (t.insert k w) v = holders t v + if w = v then 1 else 0 := by
  unfold holders
  rw [AList.entries_insert_of_notMem h, List.countP_cons]
  simp

/-- Erasing a key takes one holder from the value it held. -/
theorem holders_erase {t : Table κ ν} {k : κ} {w : ν} (h : t.lookup k = some w) (v : ν) :
    holders t v = holders (t.erase k) v + if w = v then 1 else 0 := by
  have herase := count_erase (fun x => decide (x = v)) t k
  rw [h] at herase
  simp only [Option.any_some, decide_eq_true_eq] at herase
  exact herase.symm

theorem holders_pos {t : Table κ ν} {k : κ} {w : ν} (h : t.lookup k = some w) :
    0 < holders t w := by
  rw [holders_erase h w, if_pos rfl]
  exact Nat.succ_pos _

end Table

end Lib
