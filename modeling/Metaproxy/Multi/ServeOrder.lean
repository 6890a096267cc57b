import Metaproxy.Multi.Overflow

/-!
# Multi.ServeOrder

`serve_order` takes a slice of the concatenation of the backends' records, whatever their counts
and wherever the window is, as long as the sum of the counts is an `int` (`serveOrder_slice`).
-/

namespace Metaproxy
namespace Multi

open Lib

variable {β : Type*} {sets : List (BackendSet β)}

theorem serveAtWrapped_eq (h : Counted sets) {offset voffset : Int} (hv : 0 ≤ voffset)
    (hlast : voffset + totalHits sets ≤ intMax) :
    serveAtWrapped offset sets voffset = serveAt offset sets voffset := by
  induction sets generalizing voffset with
  | nil => rfl
  | cons b sets ih =>
    have hb := h b List.mem_cons_self
    have hsets : Counted sets := fun b' hb' => h b' (List.mem_cons_of_mem b hb')
    have hrest := totalHits_eq hsets
    have htotal : totalHits (b :: sets) = b.count + totalHits sets := by
      simp [totalHits]
    rw [htotal] at hlast
    unfold intMax at hlast
    have hnext : Util.toInt (voffset + b.count) = voffset + b.count :=
      Util.toInt_eq (by omega) (by omega)
    rw [serveAtWrapped, serveAt, hnext]
    split
    · rw [Util.toInt_eq (x := offset - voffset) (by omega) (by omega),
        Util.toInt_eq (by omega) (by omega)]
    · exact ih hsets (by omega) (by unfold intMax; omega)

/-- Offsets before the first record and after the last one have no job. -/
theorem serveAt_outside (h : Counted sets) {offset voffset : Int}
    (hout : offset < voffset ∨ voffset + totalHits sets ≤ offset) :
    serveAt offset sets voffset = [] := by
  induction sets generalizing voffset with
  | nil => rfl
  | cons b sets ih =>
    have hb := h b List.mem_cons_self
    have hsets : Counted sets := fun b' hb' => h b' (List.mem_cons_of_mem b hb')
    have hrest := totalHits_eq hsets
    have htotal : totalHits (b :: sets) = b.count + totalHits sets := by
      simp [totalHits]
    rw [htotal] at hout
    rw [serveAt, if_neg (by omega)]
    exact ih hsets (by omega)

theorem toInt_offset_of_le {start : Int} {i : Nat} (hstart : 1 ≤ start)
    (hin : start + i - 1 ≤ intMax) :
    Util.toInt (Util.toInt (start + i) - 1) = start + i - 1 := by
  unfold intMax at hin
  unfold Util.toInt
  simp only [Int.bmod_def]
  omega

theorem toInt_offset_of_lt {start : Int} {i : Nat} (hstart : start ≤ intMax)
    (hi : (i : Int) < intMax) (hout : intMax < start + i - 1) :
    Util.toInt (Util.toInt (start + i) - 1) < 0 := by
  unfold intMax at hstart hi hout
  unfold Util.toInt
  simp only [Int.bmod_def]
  omega

/-- Where the offset wraps around it is past the end, and what it becomes is before the first. -/
theorem serveAtWrapped_offset (h : Counted sets) (htotal : totalHits sets ≤ intMax) {start : Int}
    {i : Nat} (hstart : 1 ≤ start) (hstart' : start ≤ intMax) (hi : (i : Int) < intMax) :
    serveAtWrapped (Util.toInt (Util.toInt (start + i) - 1)) sets 0 =
      serveAt (start + i - 1) sets 0 := by
  have hsum := totalHits_eq h
  rw [← Int.zero_add (totalHits sets)] at htotal
  by_cases hin : start + i - 1 ≤ intMax
  · rw [toInt_offset_of_le hstart hin]
    exact serveAtWrapped_eq h (Int.le_refl 0) htotal
  · have hneg := toInt_offset_of_lt hstart' hi (by omega)
    rw [serveAtWrapped_eq h (Int.le_refl 0) htotal, serveAt_outside h (.inl hneg),
      serveAt_outside h (.inr (by omega))]

/-- For every window: the jobs are those of the slice, also where `start + i` wraps around; and
nothing is out of range when the window ends at an `int`. -/
theorem serveOrder_slice (sets : List (BackendSet β)) (hcounted : ∀ b ∈ sets, 0 ≤ b.count)
    (htotal : (sets.map BackendSet.count).sum ≤ intMax) {start number : Int} (hstart : 1 ≤ start)
    (hstart' : start ≤ intMax) (hnumber : number ≤ intMax) :
    serveOrderWrapped sets start number =
        (((concatenation sets).drop (start - 1).toNat).take number.toNat).map job ∧
      (start + number - 1 ≤ intMax → serveOrderInt sets start number =
        some ((((concatenation sets).drop (start - 1).toNat).take number.toNat).map job)) := by
  have hslice := flatMap_serveAt hcounted start number.toNat
  have hlength : ((number.toNat : Int) + min (start - 1) 0).toNat = number.toNat := by omega
  rw [slice, hlength] at hslice
  rw [← hslice]
  constructor
  · rw [serveOrderWrapped, List.flatMap_def, List.flatMap_def]
    congr 1
    refine List.map_congr_left ?_
    intro i hi
    have hi' := List.mem_range.mp hi
    exact serveAtWrapped_offset hcounted htotal hstart hstart' (by omega)
  · intro hlast
    exact serveOrderInt_of_le hcounted hstart htotal hlast

theorem serveOrder_slice_three :
    serveOrderWrapped [⟨"a", 2⟩, ⟨"b", 0⟩, ⟨"c", 3⟩] 2 3 =
      [.make "a" 2, .make "c" 1, .make "c" 2] :=
  (serveOrder_slice [⟨"a", 2⟩, ⟨"b", 0⟩, ⟨"c", 3⟩] (by simp) (by decide) (by decide) (by decide)
    (by decide)).1

end Multi
end Metaproxy
