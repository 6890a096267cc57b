import Metaproxy.Lib.Slice
import Metaproxy.Multi.Jobs

/-!
# Multi.Merged

The merged order of the backends' records, of which a client presents a window.

* `serveOrder_eq_slice` — `serve_order` takes the window of the concatenation.
* `length_jobs` — either order has a job for each record of a window that lies inside the hits.
* `jobs_merged` — they are those of the window, for `round_robin` when the skip step is exact.
-/

namespace Metaproxy
namespace Multi

open Lib

variable {β : Type*}

/-- All records of the first backend, then those of the second, … -/
def concatenation (sets : List (BackendSet β)) : List (β × Nat) :=
  sets.flatMap fun b => (List.range' 1 b.count.toNat).map fun pos => (b.backend, pos)

theorem length_concatenation (sets : List (BackendSet β)) :
    (concatenation sets).length = (hits sets).sum := by
  simp [concatenation, hits, List.length_flatMap]

/-- Hit counts are not negative. -/
def Counted (sets : List (BackendSet β)) : Prop := ∀ b ∈ sets, 0 ≤ b.count

def totalHits (sets : List (BackendSet β)) : Int := (sets.map BackendSet.count).sum

theorem totalHits_eq {sets : List (BackendSet β)} (h : Counted sets) :
    totalHits sets = ((hits sets).sum : Nat) := by
  induction sets with
  | nil => rfl
  | cons b sets ih =>
    have hb := h b List.mem_cons_self
    have hsets := ih fun b' hb' => h b' (List.mem_cons_of_mem b hb')
    simp only [totalHits, hits, List.map_cons, List.sum_cons] at hsets ⊢
    rw [hsets]
    push_cast
    omega

theorem serveAt_eq_getElem {sets : List (BackendSet β)} (h : Counted sets) (offset voffset : Int) :
    serveAt offset sets voffset =
      (if 0 ≤ offset - voffset then ((concatenation sets)[(offset - voffset).toNat]?).toList
        else []).map job := by
  induction sets generalizing voffset with
  | nil => simp [serveAt, concatenation]
  | cons b sets ih =>
    have hb := h b List.mem_cons_self
    have hcons : concatenation (b :: sets) =
        ((List.range' 1 b.count.toNat).map fun pos => (b.backend, pos)) ++ concatenation sets := rfl
    have hlen : ((List.range' 1 b.count.toNat).map fun pos => (b.backend, pos)).length =
        b.count.toNat := by simp
    rw [serveAt, hcons]
    by_cases hin : offset ≥ voffset ∧ offset < voffset + b.count
    · have hlt : (offset - voffset).toNat < b.count.toNat := by omega
      rw [if_pos hin, if_pos (by omega), List.getElem?_append_left (by rwa [hlen])]
      simp only [List.getElem?_map, List.getElem?_range' hlt, Option.map_some, Option.toList_some,
        List.map_cons, List.map_nil, job]
      congr 2
      omega
    · rw [if_neg hin, ih fun b' hb' => h b' (List.mem_cons_of_mem b hb')]
      by_cases hneg : 0 ≤ offset - voffset
      · have hge : b.count.toNat ≤ (offset - voffset).toNat := by omega
        have hindex : (offset - voffset).toNat - b.count.toNat =
            (offset - (voffset + b.count)).toNat := by omega
        rw [if_pos (by omega), if_pos hneg, List.getElem?_append_right (by rwa [hlen]), hlen,
          hindex]
      · rw [if_neg (by omega), if_neg hneg]

theorem flatMap_serveAt {sets : List (BackendSet β)} (h : Counted sets) (start : Int) (n : Nat) :
    ((List.range n).flatMap fun i : Nat => serveAt (start + i - 1) sets 0) =
      (slice (concatenation sets) (start - 1) n).map job := by
  rw [← flatMap_range_getElem, List.map_flatMap]
  congr 1
  funext i
  have hindex : start + (i : Int) - 1 - 0 = start - 1 + i := by omega
  rw [serveAt_eq_getElem h, hindex]

theorem serveOrder_eq_slice {fset : FrontendSet β} (h : Counted fset.backendSets)
    (start number : Int) :
    fset.serveOrder start number =
      (slice (concatenation fset.backendSets) (start - 1) number.toNat).map job := by
  rw [serveOrder_eq]
  exact flatMap_serveAt h start number.toNat

/-! ## Windows inside the hits -/

/-- The job that `round_robin` takes first, in the plain interleaving. -/
def firstJob (counts : List Nat) (start : Nat) : Nat :=
  (counts.map fun c => min c (skippedRounds counts start)).sum + rest counts start

/-- It is not after the first record of the window. -/
theorem firstJob_le (counts : List Nat) (start : Nat) (h : 1 ≤ start) :
    firstJob counts start ≤ start - 1 := by
  have hle : (counts.map fun c => min c (skippedRounds counts start)).sum ≤
      passedWeight counts start + left counts start * inside counts start := by
    rw [sum_share]
    exact List.sum_le_sum fun c hc => min_le_share hc
  have := passedWeight_add_rest counts h
  rw [firstJob]
  omega

theorem roundRobin_from (fset : FrontendSet β) {start : Int} (h : 1 ≤ start) (number : Int) :
    fset.roundRobin start number =
      (((interleave (queues fset.backendSets)).drop
        (firstJob (hits fset.backendSets) start.toNat)).take number.toNat).map job := by
  have hcast : ((start.toNat : Nat) : Int) = start := by omega
  have := roundRobin_eq fset start.toNat (by omega) number
  rwa [hcast] at this

theorem length_roundRobin (fset : FrontendSet β) {start : Int} (h : 1 ≤ start) (number : Int) :
    (fset.roundRobin start number).length = min number.toNat
      ((hits fset.backendSets).sum - firstJob (hits fset.backendSets) start.toNat) := by
  rw [roundRobin_from fset h, List.length_map, List.length_take, List.length_drop,
    length_interleave, sum_queues]

theorem length_serveOrder {fset : FrontendSet β} (h : Counted fset.backendSets)
    (start number : Int) :
    (fset.serveOrder start number).length = min (number.toNat + min (start - 1) 0).toNat
      ((hits fset.backendSets).sum - (start - 1).toNat) := by
  rw [serveOrder_eq_slice h, List.length_map, length_slice, length_concatenation]

/-- The window of the client lies inside the hits. -/
structure InRange (fset : FrontendSet β) (start number : Int) : Prop where
  counted : Counted fset.backendSets
  one_le : 1 ≤ start
  nonneg : 0 ≤ number
  last_le : start + number - 1 ≤ totalHits fset.backendSets

theorem length_jobs (rep : Rep) {fset : FrontendSet BackendPtr} {start number : Int}
    (h : InRange fset start number) : (fset.jobs rep start number).length = number := by
  obtain ⟨hcounted, hstart, hnumber, hlast⟩ := h
  rw [totalHits_eq hcounted] at hlast
  unfold FrontendSet.jobs
  cases rep.mergeType with
  | roundRobin =>
    have := firstJob_le (hits fset.backendSets) start.toNat (by omega)
    simp only [length_roundRobin fset hstart]
    omega
  | serveOrder =>
    simp only [length_serveOrder hcounted]
    omega

/-- The records of all backends in the order of the merge. -/
def mergedOrder (rep : Rep) (fset : FrontendSet BackendPtr) : List (BackendPtr × Nat) :=
  match rep.mergeType with
  | .roundRobin => interleave (queues fset.backendSets)
  | .serveOrder => concatenation fset.backendSets

/-- Every record of every backend is in it. -/
theorem mem_mergedOrder {rep : Rep} {fset : FrontendSet BackendPtr} {b : BackendPtr} {pos : Nat} :
    (b, pos) ∈ mergedOrder rep fset ↔
      ∃ bset ∈ fset.backendSets, bset.backend = b ∧ 1 ≤ pos ∧ (pos : Int) ≤ bset.count := by
  unfold mergedOrder
  cases rep.mergeType with
  | roundRobin => exact mem_interleave_queues
  | serveOrder =>
    simp only [concatenation, List.mem_flatMap, List.mem_map, List.mem_range'_1, Prod.mk.injEq]
    refine exists_congr fun bset => and_congr_right fun _ => ?_
    constructor
    · rintro ⟨pos, hpos, rfl, rfl⟩
      exact ⟨rfl, by omega, by omega⟩
    · rintro ⟨rfl, hpos, hle⟩
      exact ⟨pos, by omega, rfl, rfl⟩

theorem nodup_concatenation {sets : List (BackendSet β)}
    (h : (sets.map BackendSet.backend).Nodup) : (concatenation sets).Nodup := by
  rw [concatenation, List.nodup_flatMap]
  constructor
  · intro b _
    exact List.Nodup.map (fun _ _ heq => congrArg Prod.snd heq) List.nodup_range'
  · refine (List.pairwise_map.mp h).imp fun {b b'} hne e he he' => ?_
    obtain ⟨_, -, rfl⟩ := List.mem_map.mp he
    obtain ⟨_, -, heq⟩ := List.mem_map.mp he'
    exact hne (congrArg Prod.fst heq).symm

theorem nodup_mergedOrder (rep : Rep) (fset : FrontendSet BackendPtr) :
    (mergedOrder rep fset).Nodup := by
  unfold mergedOrder
  cases rep.mergeType with
  | roundRobin => exact nodup_interleave (nodup_queues fset)
  | serveOrder => exact nodup_concatenation fset.distinct

/-- `round_robin` does not skip less than the records before the window. -/
def SkipsToStart (rep : Rep) (fset : FrontendSet BackendPtr) (start number : Int) : Prop :=
  rep.mergeType = .roundRobin → SkipExact (hits fset.backendSets) start.toNat number.toNat

theorem jobs_merged {rep : Rep} {fset : FrontendSet BackendPtr} {start number : Int}
    (h : InRange fset start number) (hskip : SkipsToStart rep fset start number) :
    fset.jobs rep start number =
      (((mergedOrder rep fset).drop (start - 1).toNat).take number.toNat).map job := by
  unfold FrontendSet.jobs mergedOrder
  cases hmerge : rep.mergeType with
  | roundRobin =>
    have hstart := h.one_le
    have hcast : ((start.toNat : Nat) : Int) = start := by omega
    have hpage := (roundRobin_eq_page_iff fset start.toNat (by omega) number).mpr (hskip hmerge)
    rwa [hcast] at hpage
  | serveOrder =>
    have hstart := h.one_le
    have h0 : (number.toNat + min (start - 1) 0).toNat = number.toNat := by omega
    simp only [serveOrder_eq_slice h.counted, slice, h0]

/-- From the first record on, the jobs are at positions that the backends have. -/
theorem pos_of_mem_jobs {rep : Rep} {fset : FrontendSet BackendPtr} {start number : Int}
    (h : rep.mergeType = .serveOrder ∨ 1 ≤ start) {j : PresentJob BackendPtr}
    (hj : j ∈ fset.jobs rep start number) :
    1 ≤ j.pos ∧ ∃ b ∈ fset.backendSets, b.backend = j.backend ∧ j.pos ≤ b.count := by
  unfold FrontendSet.jobs at hj
  cases hmerge : rep.mergeType with
  | roundRobin =>
    have hstart := h.resolve_left (by rw [hmerge]; exact MergeType.noConfusion)
    rw [hmerge] at hj
    simp only [roundRobin_from fset hstart] at hj
    obtain ⟨⟨b, pos⟩, he, rfl⟩ := List.mem_map.mp hj
    obtain ⟨bset, hb, rfl, hpos, hle⟩ :=
      mem_interleave_queues.mp (List.mem_of_mem_drop (List.mem_of_mem_take he))
    exact ⟨by simp only [job, PresentJob.make]; omega, bset, hb, rfl, hle⟩
  | serveOrder =>
    rw [hmerge] at hj
    simp only [serveOrder_eq, List.mem_flatMap] at hj
    obtain ⟨i, -, hj⟩ := hj
    obtain ⟨before, b, after, hsets, -, hb, -, -, hpos, hle⟩ := serveAt_eq hj
    exact ⟨hpos, b, by simp [hsets], hb.symm, hle⟩

end Multi
end Metaproxy
