import Mathlib.Algebra.Order.Ring.Nat
import Mathlib.Algebra.BigOperators.Group.List.Basic
import Mathlib.Data.List.Induction
import Mathlib.Data.List.Nodup

/-!
# Multi.FrontendSet

The result set of a client of `filter_multi.cpp`: what each backend found, and the two orders in
which a present request takes records from the backends. `β` stands for `BackendPtr`, and the
integers are exact.
-/

namespace Metaproxy
namespace Multi

variable {β : Type*}

structure BackendSet (β : Type*) where
  backend : β
  count : Int
deriving DecidableEq, Repr

structure PresentJob (β : Type*) where
  backend : β
  /-- Position for the backend, from 1. -/
  pos : Int
  /-- Present request start. -/
  start : Int
deriving DecidableEq, Repr

/-- The constructor of the source. -/
def PresentJob.make (backend : β) (pos : Int) : PresentJob β := ⟨backend, pos, 0⟩

/-- `search` adds at most one set for a backend. -/
structure FrontendSet (β : Type*) where
  setname : String
  backendSets : List (BackendSet β)
  distinct : (backendSets.map BackendSet.backend).Nodup

theorem map_backend_filterMap (backendList : List β) (resultCount : β → Option Int) :
    ((backendList.filterMap fun b => (resultCount b).map (BackendSet.mk b)).map
      BackendSet.backend).Sublist backendList := by
  induction backendList with
  | nil => exact .slnil
  | cons b l ih =>
    cases h : resultCount b with
    | none => simpa [h] using ih.cons b
    | some c => simpa [h] using ih.cons_cons b

/-- The set that `search` stores: the backends, in order, that answered with a search response. -/
def FrontendSet.ofResponses (setname : String) (backendList : List β) (h : backendList.Nodup)
    (resultCount : β → Option Int) : FrontendSet β where
  setname
  backendSets := backendList.filterMap fun b => (resultCount b).map (BackendSet.mk b)
  distinct := h.sublist (map_backend_filterMap backendList resultCount)

/-! ## `serve_order` -/

/-- The inner loop, for one offset into the sets one after the other. -/
def serveAt (offset : Int) : List (BackendSet β) → Int → List (PresentJob β)
  | [], _ => []
  | b :: sets, voffset =>
    if offset ≥ voffset ∧ offset < voffset + b.count then
      [.make b.backend (offset - voffset + 1)]
    else serveAt offset sets (voffset + b.count)

def FrontendSet.serveOrder (fset : FrontendSet β) (start number : Int) : List (PresentJob β) :=
  (List.range number.toNat).flatMap fun i => serveAt (start + i - 1) fset.backendSets 0

/-! ## `round_robin` -/

/-- The least count above `omin`, and how many sets have a count above it. -/
def nextClass (omin : Int) (sets : List (BackendSet β)) : Int × Int :=
  sets.foldl (fun (min, noLeft) b =>
    if b.count > omin then
      (if noLeft = 0 ∨ b.count < min then b.count else min, noLeft + 1)
    else (min, noLeft)) (0, 0)

theorem nextClass_concat (omin : Int) (sets : List (BackendSet β)) (b : BackendSet β) :
    nextClass omin (sets ++ [b]) =
      if b.count > omin then
        (if (nextClass omin sets).2 = 0 ∨ b.count < (nextClass omin sets).1 then b.count
          else (nextClass omin sets).1, (nextClass omin sets).2 + 1)
      else nextClass omin sets := by
  rw [nextClass, List.foldl_append]
  rfl

theorem nextClass_noLeft (omin : Int) (sets : List (BackendSet β)) :
    (nextClass omin sets).2 = sets.countP fun b => omin < b.count := by
  induction sets using List.reverseRecOn with
  | nil => rfl
  | append_singleton sets b ih =>
    rw [nextClass_concat, List.countP_append, List.countP_singleton]
    by_cases h : omin < b.count
    · simp [h, ih]
    · simp [h, ih]

theorem nextClass_min {omin : Int} {sets : List (BackendSet β)}
    (h : (nextClass omin sets).2 ≠ 0) :
    (∃ b ∈ sets, b.count = (nextClass omin sets).1) ∧ omin < (nextClass omin sets).1 ∧
      ∀ b ∈ sets, omin < b.count → (nextClass omin sets).1 ≤ b.count := by
  induction sets using List.reverseRecOn with
  | nil => exact absurd rfl h
  | append_singleton sets b ih =>
    rw [nextClass_concat] at h ⊢
    by_cases hb : b.count > omin
    · rw [if_pos hb] at h ⊢
      by_cases h0 : (nextClass omin sets).2 = 0
      · have hnone : ∀ b' ∈ sets, ¬ omin < b'.count := by
          have hc := nextClass_noLeft omin sets
          rw [h0] at hc
          simpa [List.countP_eq_zero] using (Int.natCast_eq_zero.mp hc.symm)
        rw [if_pos (.inl h0)]
        refine ⟨⟨b, by simp, rfl⟩, hb, fun b' hb' hlt => ?_⟩
        rcases List.mem_append.mp hb' with hb' | hb'
        · exact absurd hlt (hnone b' hb')
        · exact Int.le_of_eq (by rw [List.mem_singleton.mp hb'])
      · obtain ⟨⟨b0, hb0, heq⟩, hlt0, hmin⟩ := ih h0
        by_cases hless : b.count < (nextClass omin sets).1
        · rw [if_pos (.inr hless)]
          refine ⟨⟨b, by simp, rfl⟩, hb, fun b' hb' hlt => ?_⟩
          rcases List.mem_append.mp hb' with hb' | hb'
          · have := hmin b' hb' hlt
            omega
          · exact Int.le_of_eq (by rw [List.mem_singleton.mp hb'])
        · rw [if_neg (by simp [h0, hless])]
          refine ⟨⟨b0, by simp [hb0], heq⟩, hlt0, fun b' hb' hlt => ?_⟩
          rcases List.mem_append.mp hb' with hb' | hb'
          · exact hmin b' hb' hlt
          · rw [List.mem_singleton.mp hb']
            omega
    · rw [if_neg hb] at h ⊢
      obtain ⟨⟨b0, hb0, heq⟩, hlt0, hmin⟩ := ih h
      refine ⟨⟨b0, by simp [hb0], heq⟩, hlt0, fun b' hb' hlt => ?_⟩
      rcases List.mem_append.mp hb' with hb' | hb'
      · exact hmin b' hb' hlt
      · rw [List.mem_singleton.mp hb'] at hlt
        exact absurd hlt hb

theorem countP_nextClass_lt {omin : Int} {sets : List (BackendSet β)}
    (h : (nextClass omin sets).2 ≠ 0) :
    sets.countP (fun b => (nextClass omin sets).1 < b.count) <
      sets.countP fun b => omin < b.count := by
  obtain ⟨⟨b, hb, heq⟩, hlt, -⟩ := nextClass_min h
  obtain ⟨s, t, rfl⟩ := List.append_of_mem hb
  have hle : ∀ l : List (BackendSet β),
      l.countP (fun b' => b.count < b'.count) ≤ l.countP fun b' => omin < b'.count := by
    intro l
    refine List.countP_mono_left fun b' _ h' => ?_
    simp only [decide_eq_true_eq] at h' ⊢
    omega
  have hs := hle s
  have ht := hle t
  rw [← heq] at hlt ⊢
  simp only [List.countP_append, List.countP_cons, hlt, decide_true, if_true, Int.lt_irrefl,
    decide_false]
  simp only [Bool.false_eq_true, if_false]
  omega

/-- The optimisation step. All sets are skipped by the least count above `omin` as long as the
positions skipped lie before `start`. -/
def skipAhead (sets : List (BackendSet β)) (start : Int) (p : Int) (pos : List Int) (omin : Int) :
    Int × List Int :=
  let min := (nextClass omin sets).1
  let noLeft := (nextClass omin sets).2
  if _h : noLeft = 0 then (p, pos)
  else
    let skip := noLeft * min
    if p + skip > start then
      -- into the present range: skip until start, rounding off
      let min := (start - p).tdiv noLeft
      (p + noLeft * min, pos.map (· + min))
    else skipAhead sets start (p + skip) (pos.map (· + min)) min
termination_by sets.countP fun b => omin < b.count
decreasing_by exact countP_nextClass_lt _h

structure Merge (β : Type*) where
  /-- The sets and the position each is at. -/
  at_ : List (BackendSet β × Int)
  p : Int
  fetched : Int
  more : Bool
  jobs : List (PresentJob β)

/-- One pass over the sets; it is left as soon as `number` jobs are there. -/
def mergePass (start number : Int) :
    List (BackendSet β × Int) → Int → Int → Bool → List (PresentJob β) → Merge β
  | [], p, fetched, more, jobs => ⟨[], p, fetched, more, jobs⟩
  | (b, pos) :: rest, p, fetched, more, jobs =>
    if fetched ≥ number then ⟨(b, pos) :: rest, p, fetched, false, jobs⟩
    else if pos ≤ b.count then
      let m :=
        if p ≥ start then
          mergePass start number rest (p + 1) (fetched + 1) true (jobs ++ [.make b.backend pos])
        else mergePass start number rest (p + 1) fetched true jobs
      { m with at_ := (b, pos + 1) :: m.at_ }
    else
      let m := mergePass start number rest p fetched more jobs
      { m with at_ := (b, pos) :: m.at_ }

/-- What is left of the sets. -/
def remaining (l : List (BackendSet β × Int)) : Nat :=
  (l.map fun e => (e.1.count - e.2 + 1).toNat).sum

theorem remaining_mergePass_le (start number : Int) (l : List (BackendSet β × Int)) (p fetched : Int)
    (more : Bool) (jobs : List (PresentJob β)) :
    remaining (mergePass start number l p fetched more jobs).at_ ≤ remaining l := by
  induction l generalizing p fetched more jobs with
  | nil => exact Nat.le_refl _
  | cons e rest ih =>
    obtain ⟨b, pos⟩ := e
    have hcons : ∀ pos' l', remaining ((b, pos') :: l') =
        (b.count - pos' + 1).toNat + remaining l' := fun _ _ => rfl
    rw [mergePass]
    split_ifs with h1 h2 h3
    · exact Nat.le_refl _
    · have := ih (p + 1) (fetched + 1) true (jobs ++ [.make b.backend pos])
      simp only [hcons]
      omega
    · have := ih (p + 1) fetched true jobs
      simp only [hcons]
      omega
    · have := ih p fetched more jobs
      simp only [hcons]
      omega

/-- A pass that found more has advanced one of the sets. -/
theorem remaining_mergePass_lt (start number : Int) (l : List (BackendSet β × Int)) (p fetched : Int)
    (jobs : List (PresentJob β)) (h : (mergePass start number l p fetched false jobs).more = true) :
    remaining (mergePass start number l p fetched false jobs).at_ < remaining l := by
  induction l generalizing p fetched jobs with
  | nil => cases h
  | cons e rest ih =>
    obtain ⟨b, pos⟩ := e
    have hcons : ∀ pos' l', remaining ((b, pos') :: l') =
        (b.count - pos' + 1).toNat + remaining l' := fun _ _ => rfl
    rw [mergePass] at h ⊢
    split_ifs at h ⊢ with h1 h2 h3
    · have := remaining_mergePass_le start number rest (p + 1) (fetched + 1) true
        (jobs ++ [.make b.backend pos])
      simp only [hcons]
      omega
    · have := remaining_mergePass_le start number rest (p + 1) fetched true jobs
      simp only [hcons]
      omega
    · have := ih p fetched jobs h
      simp only [hcons]
      omega

/-- `while (more)`. -/
def mergeLoop (start number : Int) (l : List (BackendSet β × Int)) (p fetched : Int)
    (jobs : List (PresentJob β)) : List (PresentJob β) :=
  let m := mergePass start number l p fetched false jobs
  if _h : m.more = true then mergeLoop start number m.at_ m.p m.fetched m.jobs else m.jobs
termination_by remaining l
decreasing_by exact remaining_mergePass_lt start number l p fetched jobs _h

def FrontendSet.roundRobin (fset : FrontendSet β) (start number : Int) : List (PresentJob β) :=
  let skipped := skipAhead fset.backendSets start 1 (fset.backendSets.map fun _ => 1) 0
  mergeLoop start number (fset.backendSets.zip skipped.2) skipped.1 0 []

end Multi
end Metaproxy
