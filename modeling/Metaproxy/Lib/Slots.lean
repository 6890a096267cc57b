import Mathlib.Data.List.Nodup
import Mathlib.Data.List.Range

/-!
# Lib.Slots

An array that is filled from its start, with the indexes that have been written so far.

* `written_lt_iff`, `terminated_lt_iff` — which length of the array is enough.
* `keys_writeAllNew` — what is written when keys that are there are left out.
-/

namespace Lib

structure Slots (α : Type*) where
  items : List α
  written : List Nat
  inOrder : written = List.range items.length

namespace Slots

variable {α κ : Type*} {s : Slots α} {key : α → κ} {n : Nat}

def empty : Slots α := ⟨[], [], rfl⟩

/-- The next free slot is written. -/
def write (s : Slots α) (x : α) : Slots α where
  items := s.items ++ [x]
  written := s.written ++ [s.items.length]
  inOrder := by rw [s.inOrder, List.length_append, List.length_singleton, List.range_succ]

@[simp] theorem items_empty : (empty : Slots α).items = [] := rfl

@[simp] theorem items_write (s : Slots α) (x : α) : (s.write x).items = s.items ++ [x] := rfl

/-- All indexes, when the slot after the last item is written at the end if there is an item. -/
def terminated (s : Slots α) : List Nat :=
  if s.items.length ≠ 0 then s.written ++ [s.items.length] else s.written

theorem written_lt_iff : (∀ i ∈ s.written, i < n) ↔ s.items.length ≤ n := by
  rw [s.inOrder]
  constructor
  · intro h
    by_contra hlt
    exact Nat.lt_irrefl n (h n (List.mem_range.mpr (Nat.lt_of_not_le hlt)))
  · intro h i hi
    exact Nat.lt_of_lt_of_le (List.mem_range.mp hi) h

theorem terminated_lt_iff (hn : 0 < n) :
    (∀ i ∈ s.terminated, i < n) ↔ s.items.length < n := by
  rw [terminated]
  split
  · rw [List.forall_mem_append, List.forall_mem_singleton, written_lt_iff]
    exact ⟨fun h => h.2, fun h => ⟨h.le, h⟩⟩
  case isFalse h =>
    rw [written_lt_iff, not_not.mp h]
    exact iff_of_true hn.le hn

/-! ## New keys -/

variable [DecidableEq κ]

/-- An item whose key is not there yet is written. -/
def writeNew (key : α → κ) (s : Slots α) (x : α) : Slots α :=
  if key x ∈ s.items.map key then s else s.write x

def newKeys (keys : List κ) (l : List κ) : List κ := l.filter fun k => k ∉ keys

theorem newKeys_cons (keys : List κ) (k : κ) (l : List κ) : newKeys keys (k :: l) =
    if k ∈ keys then newKeys keys l else k :: newKeys keys l := by
  rw [newKeys, List.filter_cons]
  by_cases h : k ∈ keys <;> simp [h, newKeys]

/-- A key that does not come again makes no difference to the others. -/
theorem newKeys_concat {keys l : List κ} {k : κ} (h : k ∉ l) :
    newKeys (keys ++ [k]) l = newKeys keys l := by
  refine List.filter_congr fun k' hk' => ?_
  have hne : k' ≠ k := by
    rintro rfl
    exact h hk'
  simp [hne]

theorem keys_writeAllNew {l : List α} (hl : (l.map key).Nodup) (s : Slots α) :
    (l.foldl (writeNew key) s).items.map key =
      s.items.map key ++ newKeys (s.items.map key) (l.map key) := by
  induction l generalizing s with
  | nil => exact (List.append_nil _).symm
  | cons x l ih =>
    rw [List.map_cons, List.nodup_cons] at hl
    rw [List.foldl_cons, ih hl.2, List.map_cons, newKeys_cons, writeNew]
    split
    · rfl
    · rw [items_write, List.map_append, List.map_singleton, newKeys_concat hl.1, List.append_assoc,
        List.singleton_append]

end Slots
end Lib
