import Metaproxy.Multi.Answered
import Metaproxy.Multi.Merged

/-!
# Multi.Range

Requests for windows that are not inside the hits.

* `answersOutOfRange_iff` — there is no test of the start: a window is refused when the merge has
  produced fewer jobs than were asked for.
* `present_range` — the exact condition under which backends are asked for positions they have
  only, and every window outside the hits is refused.
* `zero_presented` — a client that starts at 0 gets the first record.
-/

namespace Metaproxy
namespace Multi

open Lib Z3950

/-- The window of the client, when it wants any records, lies inside the hits. -/
def WindowInside (fset : FrontendSet BackendPtr) (start number : Int) : Prop :=
  1 ≤ start ∧ start + number - 1 ≤ totalHits fset.backendSets

/-- Every present request asks for positions that the backend has. -/
def AsksInRange (ρ : Type*) (rep : Rep) (fset : FrontendSet BackendPtr) (req : PresentRequest) :
    Prop :=
  ∀ (f : Frontend ρ) (out : BackendPtr → Outcome ρ), f.sets.lookup req.resultSetId = some fset →
    ∀ e ∈ (present rep f req out).sent, ∃ q, e.2 = .present q ∧
      1 ≤ q.numberOfRecordsRequested ∧ 1 ≤ q.resultSetStartPoint ∧
      ∃ b ∈ fset.backendSets, b.backend = e.1 ∧
        q.resultSetStartPoint + q.numberOfRecordsRequested - 1 ≤ b.count

/-- A window outside the hits is refused, unless a close or diagnostics of the backends are passed
on; records are not returned in any case. -/
def AnswersOutOfRange (ρ : Type*) (rep : Rep) (fset : FrontendSet BackendPtr)
    (req : PresentRequest) : Prop :=
  0 < Util.toInt req.numberOfRecordsRequested →
  ¬ WindowInside fset (Util.toInt req.resultSetStartPoint)
    (Util.toInt req.numberOfRecordsRequested) →
  ∀ (f : Frontend ρ) (out : BackendPtr → Outcome ρ), f.sets.lookup req.resultSetId = some fset →
    ((∀ b, Asked (jobsOf rep fset req) b → Fresh Gdu.presentRecords f out b) →
      ¬ Reported Gdu.presentRecords rep.hideErrors f out (Asked (jobsOf rep fset req)) →
      (present rep f req out).answer =
        .response (some (.present (.diagnostic .presentRequestOutOfRange [])))) ∧
    ∀ res l, (present rep f req out).closed = false →
      (present rep f req out).answer = .response (some (.present res)) →
      res.records ≠ some (.databaseOrSurDiagnostics l)

/-! ## Refusing -/

section Refuse

variable {ρ : Type*} {rep : Rep} {fset : FrontendSet BackendPtr} {req : PresentRequest}

/-- A frontend that has the set, and no packages yet. -/
def holding (ρ : Type*) (fset : FrontendSet BackendPtr) (setname : String) : Frontend ρ :=
  { Frontend.new with sets := AList.singleton setname fset }

/-- Every backend answers, without records. -/
def allAnswer (_ : BackendPtr) : Outcome ρ := ⟨false, some (.present .new)⟩

theorem decisionOf_allAnswer :
    decisionOf rep (holding ρ fset req.resultSetId) req allAnswer fset = .assemble ↔
      0 ≤ Util.toInt req.numberOfRecordsRequested ∧
        Util.toInt req.numberOfRecordsRequested ≤ (jobsOf rep fset req).length := by
  have hfresh : ∀ b, Asked (jobsOf rep fset req) b →
      Fresh Gdu.presentRecords (holding ρ fset req.resultSetId) allAnswer b := by
    intro b _ hnone
    cases hnone
  rw [decisionOf_eq_assemble hfresh, and_iff_right]
  rintro ⟨⟨b, -, hclosed⟩ | ⟨b, -, hfails⟩, -⟩
  · cases hclosed
  · cases hfails

theorem diagnosticRecords_ne {α : Type*} {zDiag : List DiagRec} {records : Records α}
    (h : diagnosticRecords zDiag = some records) (l : NamePlusRecordList α) :
    records ≠ .databaseOrSurDiagnostics l := by
  unfold diagnosticRecords at h
  rintro rfl
  split_ifs at h
  · cases h
  · split at h <;> cases h

theorem answersOutOfRange_iff :
    AnswersOutOfRange ρ rep fset req ↔
      (0 < Util.toInt req.numberOfRecordsRequested →
        ¬ WindowInside fset (Util.toInt req.resultSetStartPoint)
          (Util.toInt req.numberOfRecordsRequested) →
        (jobsOf rep fset req).length < Util.toInt req.numberOfRecordsRequested) := by
  refine forall_congr' fun hpos => forall_congr' fun houtside => ?_
  constructor
  · intro h
    by_contra hle
    -- the records would be assembled
    have hset : (holding ρ fset req.resultSetId).sets.lookup req.resultSetId = some fset :=
      AList.lookup_insert ∅
    have hdec : decisionOf rep (holding ρ fset req.resultSetId) req allAnswer fset = .assemble :=
      decisionOf_allAnswer.mpr ⟨by omega, by omega⟩
    obtain ⟨hanswer, -⟩ := h (holding ρ fset req.resultSetId) allAnswer hset
    have hno := (decisionOf_eq_assemble (fun b _ hnone => by cases hnone)).mp hdec
    have hrefused := hanswer (fun b _ hnone => by cases hnone) hno.1
    rw [present_eq hset, hdec] at hrefused
    simp only at hrefused
    cases hassemble : assemble (presented rep (holding ρ fset req.resultSetId) req allAnswer fset)
        (placedOf rep req fset) with
    | none =>
      rw [hassemble] at hrefused
      cases hrefused
    | some l =>
      rw [hassemble] at hrefused
      simp [presentRecords, PresentResponse.diagnostic] at hrefused
  · intro hlt f out hset
    rw [present_eq hset]
    refine ⟨fun hfresh hno => ?_, fun res l hclosed hanswer => ?_⟩
    · rw [(decisionOf_eq_outOfRange hfresh).mpr ⟨hno, .inr hlt⟩]
    · cases hdec : decisionOf rep f req out fset with
      | closed b =>
        rw [hdec] at hclosed
        cases hclosed
      | diagnostics zDiag =>
        rw [hdec] at hanswer
        simp only [presentDiagnostics] at hanswer
        cases hrecords : diagnosticRecords (α := NamePlusRecord ρ) zDiag with
        | none =>
          rw [hrecords] at hanswer
          cases hanswer
        | some records =>
          rw [hrecords] at hanswer
          cases hanswer
          rintro heq
          exact diagnosticRecords_ne hrecords l (Option.some.inj heq)
      | outOfRange =>
        rw [hdec] at hanswer
        cases hanswer
        rintro heq
        cases heq
      | assemble =>
        have := (Found.decide_eq_assemble.mp hdec).2.2
        omega

end Refuse

/-! ## Asking -/

section Ask

variable {ρ : Type*} {rep : Rep} {fset : FrontendSet BackendPtr} {req : PresentRequest}

theorem asksInRange_of_jobs (h : ∀ j ∈ jobsOf rep fset req,
    1 ≤ j.pos ∧ ∃ b ∈ fset.backendSets, b.backend = j.backend ∧ j.pos ≤ b.count) :
    AsksInRange ρ rep fset req := by
  intro f out hset e he
  rw [present_eq hset] at he
  obtain ⟨a, ha, rfl⟩ := List.mem_map.mp he
  obtain ⟨hasked, heq⟩ := mem_asksOf.mp ha
  have hasc : Ascending (jobsOf rep fset req) := ascending_jobs _ _ _ _
  have hne := (asked_iff hasc a.backend).mp hasked
  have hw := spans_window a.backend hasc
  obtain ⟨j, hj, hjb, hjpos⟩ := hw.start_mem hne
  obtain ⟨k, hk, hkb, hkpos⟩ := hw.last_mem hne
  obtain ⟨b, hb, hbb, hbcount⟩ := (h k hk).2
  have hfirst := (h j hj).1
  have hlast := hw.le_last j hj hjb
  have hstart : a.start = (window a.backend (jobsOf rep fset req)).1 := by rw [heq]
  have hnumber : a.number = (window a.backend (jobsOf rep fset req)).2 -
      (window a.backend (jobsOf rep fset req)).1 + 1 := by rw [heq]
  refine ⟨a.request req, rfl, ?_, ?_, b, hb, hbb.trans hkb, ?_⟩
  · simp only [Ask.request]
    omega
  · simp only [Ask.request]
    omega
  · simp only [Ask.request]
    omega

/-- A job before the first record is asked for, unless it is at -1. -/
theorem one_le_of_asksInRange (h : AsksInRange ρ rep fset req) {j : PresentJob BackendPtr}
    (hj : j ∈ jobsOf rep fset req) (hne : j.pos ≠ -1) : 1 ≤ j.pos := by
  have hasc : Ascending (jobsOf rep fset req) := ascending_jobs _ _ _ _
  have hasked : Asked (jobsOf rep fset req) j.backend := ⟨j, hj, rfl, hne⟩
  have hset : (holding ρ fset req.resultSetId).sets.lookup req.resultSetId = some fset :=
    AList.lookup_insert ∅
  obtain ⟨a, ha, hb⟩ := List.mem_map.mp (mem_asked.mpr hasked)
  have hsent : (a.backend, Request.present (a.request req)) ∈
      (present rep (holding ρ fset req.resultSetId) req allAnswer).sent := by
    rw [present_eq hset]
    exact List.mem_map.mpr ⟨a, ha, rfl⟩
  obtain ⟨q, hq, -, hone, -⟩ := h _ _ hset _ hsent
  cases hq
  have hstart : a.start = (window j.backend (jobsOf rep fset req)).1 := by
    rw [(mem_asksOf.mp ha).2, hb]
  have hle := (spans_window j.backend hasc).start_le ((asked_iff hasc _).mp hasked) j hj rfl hne
  simp only [Ask.request] at hone
  omega

end Ask

/-! ## The exact condition -/

/-- What the merge makes of the start: `serve_order` has no job for it when it is outside the hits;
`round_robin` takes a window that starts at `firstJob`, or before the first record. -/
def KeepsRange (rep : Rep) (fset : FrontendSet BackendPtr) (start number : Int) : Prop :=
  number ≤ 0 ∨ rep.mergeType = .serveOrder ∨
  (start < 1 ∧ (withHits fset.backendSets = 0 ∨
    (1 - start < withHits fset.backendSets ∧ totalHits fset.backendSets < number))) ∨
  (1 ≤ start ∧ (start + number - 1 ≤ totalHits fset.backendSets ∨
    totalHits fset.backendSets < firstJob (hits fset.backendSets) start.toNat + number))

section Cases

variable {ρ : Type*} {rep : Rep} {fset : FrontendSet BackendPtr} {req : PresentRequest}

theorem range_nonpos (h : Util.toInt req.numberOfRecordsRequested ≤ 0) :
    AsksInRange ρ rep fset req ∧ AnswersOutOfRange ρ rep fset req := by
  have h0 : (Util.toInt req.numberOfRecordsRequested).toNat = 0 := by omega
  have hnil : jobsOf rep fset req = [] := by
    unfold jobsOf FrontendSet.jobs
    cases rep.mergeType with
    | roundRobin =>
      obtain ⟨m, first, hrr⟩ := roundRobin_window fset (Util.toInt req.resultSetStartPoint)
        (Util.toInt req.numberOfRecordsRequested)
      simp only [hrr, h0, List.take_zero, List.map_nil]
    | serveOrder => simp only [serveOrder_eq, h0, List.range_zero, List.flatMap_nil]
  refine ⟨asksInRange_of_jobs fun j hj => ?_, fun hpos => absurd hpos (by omega)⟩
  rw [hnil] at hj
  cases hj

theorem jobsOf_below (fset : FrontendSet BackendPtr) (hmerge : rep.mergeType = .roundRobin)
    (hstart : Util.toInt req.resultSetStartPoint < 1) :
    jobsOf rep fset req =
      ((interleave (queuesFrom (roundsBelow fset.backendSets (Util.toInt req.resultSetStartPoint))
        fset.backendSets)).take (Util.toInt req.numberOfRecordsRequested).toNat).map
          (jobFrom (roundsBelow fset.backendSets (Util.toInt req.resultSetStartPoint))) := by
  unfold jobsOf FrontendSet.jobs
  simp only [hmerge, roundRobin_below fset hstart]

theorem answersOutOfRange_below (hpos : 0 < Util.toInt req.numberOfRecordsRequested)
    (hstart : Util.toInt req.resultSetStartPoint < 1) :
    AnswersOutOfRange ρ rep fset req ↔
      (jobsOf rep fset req).length < Util.toInt req.numberOfRecordsRequested := by
  have houtside : ¬ WindowInside fset (Util.toInt req.resultSetStartPoint)
      (Util.toInt req.numberOfRecordsRequested) := fun h => by
    have := h.1
    omega
  exact answersOutOfRange_iff.trans ⟨fun h => h hpos houtside, fun h _ _ => h⟩

variable (hcounted : Counted fset.backendSets)
include hcounted

theorem range_serveOrder (hmerge : rep.mergeType = .serveOrder) :
    AsksInRange ρ rep fset req ∧ AnswersOutOfRange ρ rep fset req := by
  refine ⟨asksInRange_of_jobs fun j hj => pos_of_mem_jobs (.inl hmerge) hj,
    answersOutOfRange_iff.mpr fun hpos houtside => ?_⟩
  rw [WindowInside, totalHits_eq hcounted] at houtside
  unfold jobsOf FrontendSet.jobs
  simp only [hmerge, length_serveOrder hcounted]
  omega

theorem range_from_one (hmerge : rep.mergeType = .roundRobin)
    (hpos : 0 < Util.toInt req.numberOfRecordsRequested)
    (hstart : 1 ≤ Util.toInt req.resultSetStartPoint) :
    AsksInRange ρ rep fset req ∧ AnswersOutOfRange ρ rep fset req ↔
      Util.toInt req.resultSetStartPoint + Util.toInt req.numberOfRecordsRequested - 1 ≤
          totalHits fset.backendSets ∨
        totalHits fset.backendSets < firstJob (hits fset.backendSets)
          (Util.toInt req.resultSetStartPoint).toNat + Util.toInt req.numberOfRecordsRequested := by
  have hasks : AsksInRange ρ rep fset req :=
    asksInRange_of_jobs fun j hj => pos_of_mem_jobs (.inr hstart) hj
  have hlen : (jobsOf rep fset req).length = min (Util.toInt req.numberOfRecordsRequested).toNat
      ((hits fset.backendSets).sum - firstJob (hits fset.backendSets)
        (Util.toInt req.resultSetStartPoint).toNat) := by
    unfold jobsOf FrontendSet.jobs
    simp only [hmerge, length_roundRobin fset hstart]
  rw [and_iff_right hasks, answersOutOfRange_iff, WindowInside, hlen, totalHits_eq hcounted]
  omega

/-- When no round is taken back, the window starts at the first record. -/
theorem range_below_first (hmerge : rep.mergeType = .roundRobin)
    (hpos : 0 < Util.toInt req.numberOfRecordsRequested)
    (hstart : Util.toInt req.resultSetStartPoint < 1)
    (hzero : roundsBelow fset.backendSets (Util.toInt req.resultSetStartPoint) = 0) :
    AsksInRange ρ rep fset req ∧ AnswersOutOfRange ρ rep fset req ↔
      totalHits fset.backendSets < Util.toInt req.numberOfRecordsRequested := by
  have hjobs := jobsOf_below fset hmerge hstart
  rw [hzero, queuesFrom_zero, jobFrom_zero] at hjobs
  have hlen : (jobsOf rep fset req).length =
      min (Util.toInt req.numberOfRecordsRequested).toNat (hits fset.backendSets).sum := by
    rw [hjobs, List.length_map, List.length_take, length_interleave, sum_queues]
  have hasks : AsksInRange ρ rep fset req := by
    refine asksInRange_of_jobs fun j hj => ?_
    rw [hjobs] at hj
    obtain ⟨⟨b, pos⟩, he, rfl⟩ := List.mem_map.mp hj
    obtain ⟨bset, hb, rfl, hone, hle⟩ := mem_interleave_queues.mp (List.mem_of_mem_take he)
    exact ⟨by simp only [job, PresentJob.make]; omega, bset, hb, rfl, hle⟩
  rw [and_iff_right hasks, answersOutOfRange_below hpos hstart, hlen, totalHits_eq hcounted]
  omega

omit hcounted in
/-- When rounds are taken back, position 0 of a backend with hits is asked for, or as many jobs as
records are found. -/
theorem not_range_below (hmerge : rep.mergeType = .roundRobin)
    (hpos : 0 < Util.toInt req.numberOfRecordsRequested)
    (hstart : Util.toInt req.resultSetStartPoint < 1) (hsome : 0 < withHits fset.backendSets)
    (hneg : roundsBelow fset.backendSets (Util.toInt req.resultSetStartPoint) < 0) :
    ¬ (AsksInRange ρ rep fset req ∧ AnswersOutOfRange ρ rep fset req) := by
  rintro ⟨hasks, hrefused⟩
  have hjobs := jobsOf_below fset hmerge hstart
  have hlt := (answersOutOfRange_below hpos hstart).mp hrefused
  generalize roundsBelow fset.backendSets (Util.toInt req.resultSetStartPoint) = m at hjobs hneg
  have hall : jobsOf rep fset req =
      (interleave (queuesFrom m fset.backendSets)).map (jobFrom m) := by
    rw [hjobs, List.length_map, List.length_take] at hlt
    rw [hjobs, List.take_of_length_le (by omega)]
  obtain ⟨b, hb, hcount⟩ := List.countP_pos_iff.mp hsome
  simp only [decide_eq_true_eq] at hcount
  have hmem : (b.backend, (-m).toNat) ∈ interleave (queuesFrom m fset.backendSets) :=
    mem_interleave.mpr ⟨by omega, (b.count - m).toNat, List.mem_map.mpr ⟨b, hb, rfl⟩, by omega⟩
  have hjob : jobFrom m (b.backend, (-m).toNat) ∈ jobsOf rep fset req := by
    rw [hall]
    exact List.mem_map.mpr ⟨_, hmem, rfl⟩
  have hzero : (jobFrom m (b.backend, (-m).toNat)).pos = 0 := by
    simp only [jobFrom, PresentJob.make]
    omega
  have := one_le_of_asksInRange hasks hjob (by omega)
  omega

theorem range_below (hmerge : rep.mergeType = .roundRobin)
    (hpos : 0 < Util.toInt req.numberOfRecordsRequested)
    (hstart : Util.toInt req.resultSetStartPoint < 1) :
    AsksInRange ρ rep fset req ∧ AnswersOutOfRange ρ rep fset req ↔
      withHits fset.backendSets = 0 ∨
        (1 - Util.toInt req.resultSetStartPoint < withHits fset.backendSets ∧
          totalHits fset.backendSets < Util.toInt req.numberOfRecordsRequested) := by
  have hrounds := roundsBelow_eq fset.backendSets hstart
  rcases Nat.eq_zero_or_pos (withHits fset.backendSets) with hnone | hsome
  · have hzero : roundsBelow fset.backendSets (Util.toInt req.resultSetStartPoint) = 0 := by
      rw [hrounds, hnone]
      simp
    have htotal : totalHits fset.backendSets = 0 := by
      refine List.sum_eq_zero fun c hc => ?_
      obtain ⟨b, hb, rfl⟩ := List.mem_map.mp hc
      have hno := List.countP_eq_zero.mp hnone b hb
      have := hcounted b hb
      simp only [decide_eq_true_eq] at hno
      omega
    rw [range_below_first hcounted hmerge hpos hstart hzero, htotal]
    simp [hnone, hpos]
  · rcases Int.lt_or_le (1 - Util.toInt req.resultSetStartPoint) (withHits fset.backendSets)
      with hlt | hge
    · have hzero : roundsBelow fset.backendSets (Util.toInt req.resultSetStartPoint) = 0 := by
        rw [hrounds, Int.ediv_eq_zero_of_lt (by omega) hlt]
        rfl
      rw [range_below_first hcounted hmerge hpos hstart hzero]
      omega
    · have hone : 1 ≤ (1 - Util.toInt req.resultSetStartPoint) / withHits fset.backendSets :=
        (Int.le_ediv_iff_mul_le (by omega)).mpr (by omega)
      have hno := not_range_below (ρ := ρ) hmerge hpos hstart hsome (by omega)
      refine iff_of_false hno ?_
      omega

end Cases

/-- Backends are asked only for positions they have, and windows outside the hits are refused, if
and only if the merge keeps to the range. -/
theorem present_range (ρ : Type*) (rep : Rep) (fset : FrontendSet BackendPtr)
    (req : PresentRequest) (h : Counted fset.backendSets) :
    AsksInRange ρ rep fset req ∧ AnswersOutOfRange ρ rep fset req ↔
      KeepsRange rep fset (Util.toInt req.resultSetStartPoint)
        (Util.toInt req.numberOfRecordsRequested) := by
  rw [KeepsRange]
  by_cases hpos : Util.toInt req.numberOfRecordsRequested ≤ 0
  · exact ⟨fun _ => .inl hpos, fun _ => range_nonpos hpos⟩
  cases hmerge : rep.mergeType with
  | serveOrder => exact ⟨fun _ => .inr (.inl rfl), fun _ => range_serveOrder h hmerge⟩
  | roundRobin =>
    by_cases hstart : Util.toInt req.resultSetStartPoint < 1
    · rw [range_below h hmerge (by omega) hstart]
      simp only [reduceCtorEq, false_or]
      omega
    · rw [range_from_one h hmerge (by omega) (by omega)]
      simp only [reduceCtorEq, false_or]
      omega

/-- A window after the last record is refused, with the backends served one after the other. -/
theorem present_range_after :
    AnswersOutOfRange Unit hidingRep oneEach ⟨"1", 2, 5, none, none⟩ := by
  have hcounted : Counted oneEach.backendSets := by
    unfold Counted
    decide
  have hkeeps : KeepsRange hidingRep oneEach (Util.toInt 2) (Util.toInt 5) := .inr (.inl rfl)
  exact ((present_range Unit hidingRep oneEach ⟨"1", 2, 5, none, none⟩ hcounted).mpr hkeeps).2

/-- The default order. -/
def interleaving : Rep := { hidingRep with mergeType := .roundRobin }

/-- The client asks for record 0, and is given the first record. -/
theorem zero_presented :
    ¬ (AsksInRange Unit interleaving oneEach ⟨"1", 0, 1, none, none⟩ ∧
      AnswersOutOfRange Unit interleaving oneEach ⟨"1", 0, 1, none, none⟩) := by
  have hcounted : Counted oneEach.backendSets := by
    unfold Counted
    decide
  rw [range_below hcounted rfl (by decide) (by decide)]
  decide

end Multi
end Metaproxy
