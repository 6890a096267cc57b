import Metaproxy.BackendTest
import Metaproxy.PresentChunk.Bounds

/-!
# PresentChunk.Whole

A present in chunks against the same present in one piece, for targets that answer whatever is in
the range of the result set, with as many of the records asked for as they like.

* `Target` — such a target; `Target.answers` is what the chunks come back with.
* `chunkIt_shown` — the loop ends, with all records of the window.
* `backendTarget` — `filter_backend_test.cpp` is such a target.
* `chunkIt_equalsWhole_iff` — the response is that of one present, but for the position after it,
  which is left at 0: the right one at the end of the set only.
-/

namespace Metaproxy
namespace PresentChunk

open Lib Z3950

variable {ρ : Type*} {set : List ρ} {pr : PresentRequest} {chunkNumber : Int}

/-! ## Targets -/

/-- 0 behind the end. -/
def positionAfter (set : List ρ) (position : Int) : Int :=
  if position > set.length then 0 else position

/-- What one present of a window gives. -/
def whole (set : List ρ) (pr : PresentRequest) : PresentResponse ρ :=
  { (PresentResponse.new : PresentResponse ρ) with
    numberOfRecordsReturned := pr.numberOfRecordsRequested
    nextResultSetPosition :=
      positionAfter set (pr.resultSetStartPoint + pr.numberOfRecordsRequested)
    records := some (.databaseOrSurDiagnostics
      (window set pr.resultSetStartPoint pr.numberOfRecordsRequested)) }

/-- An answer with the first `number` of the records asked for. -/
structure Serves (set : List ρ) (req : PresentRequest) (number : Nat) (res : PresentResponse ρ) :
    Prop where
  records : res.records =
    some (.databaseOrSurDiagnostics (window set req.resultSetStartPoint number))
  numberReturned : res.numberOfRecordsReturned = number
  nextPosition : res.nextResultSetPosition = positionAfter set (req.resultSetStartPoint + number)
  status : number = req.numberOfRecordsRequested → res.presentStatus = .success

structure InRange (set : List ρ) (pr : PresentRequest) : Prop where
  start : 1 ≤ pr.resultSetStartPoint
  number : 1 ≤ pr.numberOfRecordsRequested
  last : pr.resultSetStartPoint + pr.numberOfRecordsRequested - 1 ≤ set.length

/-- `set` has the records in the syntax and composition of the request. How many of them are in the
answer may differ from one request to the next. -/
structure Target (set : List ρ) (pr : PresentRequest) where
  answer : Nat → PresentRequest → Answer ρ
  serves : ∀ k start number, InRange set (windowRequest pr start number) →
    ∃ (m : Nat) (res : PresentResponse ρ), 1 ≤ m ∧ m ≤ number ∧
      answer k (windowRequest pr start number) = ⟨false, some (.present res)⟩ ∧
      Serves set (windowRequest pr start number) m res

namespace Target

/-- Where chunk `k` starts. -/
def offset (t : Target set pr) (chunkNumber : Int) : Nat → Int
  | 0 => 0
  | k + 1 =>
    let a := t.answer k (chunkRequest chunkNumber pr (t.offset chunkNumber k))
    t.offset chunkNumber k + match goesOn false a with
      | some nprl => nprl.numRecords
      | none => 0

def answers (t : Target set pr) (chunkNumber : Int) (k : Nat) : Answer ρ :=
  t.answer k (chunkRequest chunkNumber pr (t.offset chunkNumber k))

variable (t : Target set pr) {k : Nat}

/-- A chunk has a part of what is left. -/
theorem goesOn_answers_of_offset (hchunk : 1 ≤ chunkNumber) (hpr : InRange set pr)
    (hk : Wants (amount false (t.answers chunkNumber)) (total pr) k)
    (hoffset : t.offset chunkNumber k = (filled (amount false (t.answers chunkNumber)) k : Nat)) :
    ∃ m : Nat, 1 ≤ m ∧ filled (amount false (t.answers chunkNumber)) k + m ≤ total pr ∧
      goesOn false (t.answers chunkNumber k) =
        some (window set (pr.resultSetStartPoint +
          (filled (amount false (t.answers chunkNumber)) k : Nat)) m) := by
  have hlt := (lt_requested_iff _).mpr hk.below
  have hfirst := hpr.start
  have hlast := hpr.last
  rw [answers, hoffset]
  generalize filled (amount false (t.answers chunkNumber)) k = done at hlt ⊢
  have hrange : InRange set (chunkRequest chunkNumber pr done) := by
    refine ⟨?_, ?_, ?_⟩
    · simp only [chunkRequest]
      omega
    · simp only [chunkRequest]
      split <;> omega
    · simp only [chunkRequest]
      split <;> omega
  obtain ⟨m, res, hpos, hle, ha, hserves⟩ := t.serves k _ _ hrange
  refine ⟨m, hpos, ?_, ?_⟩
  · rw [total]
    split at hle <;> omega
  · have heq : windowRequest pr (pr.resultSetStartPoint + done)
        (if pr.numberOfRecordsRequested - done > chunkNumber then chunkNumber
          else pr.numberOfRecordsRequested - done) = chunkRequest chunkNumber pr done := rfl
    rw [heq] at ha
    rw [ha, goesOn]
    simp only [Bool.or_self, Bool.false_eq_true, if_false, hserves.records]
    rfl

theorem offset_eq (hchunk : 1 ≤ chunkNumber) (hpr : InRange set pr)
    (hk : Wants (amount false (t.answers chunkNumber)) (total pr) k) :
    t.offset chunkNumber k = (filled (amount false (t.answers chunkNumber)) k : Nat) := by
  induction k with
  | zero => rfl
  | succ k ih =>
    have hk' := hk.of_le (Nat.le_succ k)
    obtain ⟨m, -, -, ha⟩ := t.goesOn_answers_of_offset hchunk hpr hk' (ih hk')
    rw [offset, filled_succ, amount_eq_some ha, ih hk']
    rw [answers, ih hk'] at ha
    simp only [ha, window, Option.getD_some, Int.toNat_natCast, Int.natCast_add]

theorem goesOn_answers (hchunk : 1 ≤ chunkNumber) (hpr : InRange set pr)
    (hk : Wants (amount false (t.answers chunkNumber)) (total pr) k) :
    ∃ m : Nat, 1 ≤ m ∧ filled (amount false (t.answers chunkNumber)) k + m ≤ total pr ∧
      goesOn false (t.answers chunkNumber k) =
        some (window set (pr.resultSetStartPoint +
          (filled (amount false (t.answers chunkNumber)) k : Nat)) m) :=
  t.goesOn_answers_of_offset hchunk hpr hk (t.offset_eq hchunk hpr hk)

theorem counts_answers (hchunk : 1 ≤ chunkNumber) (hpr : InRange set pr) :
    Counts false pr (t.answers chunkNumber) := by
  intro k nprl hk hnprl
  obtain ⟨m, -, -, ha⟩ := t.goesOn_answers hchunk hpr hk
  rw [ha] at hnprl
  obtain rfl := Option.some.inj hnprl
  exact Int.natCast_nonneg m

/-- The answers are those to the requests that are sent. -/
theorem chunkIt_sent (hchunk : 1 ≤ chunkNumber) (hpr : InRange set pr) {n : Nat} {c : Chunks ρ}
    (h : chunkIt chunkNumber false pr ((List.range n).map (t.answers chunkNumber)) = some c) :
    c.sent = (List.range c.sent.length).map fun k =>
      chunkRequest chunkNumber pr (t.offset chunkNumber k) := by
  have hgo : ∀ k < 0, (amount false (t.answers chunkNumber) k).isSome :=
    fun k hk => absurd hk (Nat.not_lt_zero k)
  rw [chunkIt, List.range_eq_range'] at h
  obtain ⟨hwants, hsent⟩ := chunkLoop_range_sent (t.counts_answers hchunk hpr) hgo h
  rw [Nat.zero_add] at hwants
  rw [← List.range_eq_range'] at hsent
  rw [hsent, List.length_map, List.length_range]
  refine List.map_congr_left fun k hk => ?_
  rw [t.offset_eq hchunk hpr (hwants k (List.mem_range.mp hk) (Nat.zero_le k))]

end Target

/-! ## Their records -/

/-- The array with the first `number` records of the window. -/
def shown (set : List ρ) (pr : PresentRequest) (number : Nat) : Npl ρ where
  allocated := pr.numberOfRecordsRequested
  written := (List.range number).map fun (i : Nat) =>
    ((i : Int), set[(pr.resultSetStartPoint - 1).toNat + i]?)

theorem shown_put (hstart : 1 ≤ pr.resultSetStartPoint) (n m : Nat) :
    (shown set pr n).put n (window set (pr.resultSetStartPoint + n) m) = shown set pr (n + m) := by
  have hfirst : (pr.resultSetStartPoint + n - 1).toNat = (pr.resultSetStartPoint - 1).toNat + n := by
    omega
  simp only [Npl.put, shown, window, Int.toNat_natCast, hfirst, List.range_add, List.map_append,
    List.map_map, Npl.mk.injEq, true_and]
  congr 1
  refine List.map_congr_left fun i hi => ?_
  rw [List.mem_range] at hi
  rw [List.getElem?_take_of_lt hi, List.getElem?_drop]
  simp only [Function.comp_apply, Int.natCast_add, Nat.add_assoc]

theorem find?_map_range {β : Type*} (f : Nat → β) {n i : Nat} (h : i < n) :
    ((List.range n).map fun k : Nat => ((k : Int), f k)).reverse.find? (fun w => w.1 = (i : Int)) =
      some ((i : Int), f i) := by
  induction n with
  | zero => omega
  | succ n ih =>
    rw [List.range_succ, List.map_append, List.map_singleton, List.reverse_append,
      List.reverse_singleton, List.singleton_append, List.find?_cons]
    by_cases heq : n = i
    · subst heq
      simp
    · have hne : ¬ (n : Int) = i := by omega
      simp only [hne, decide_false]
      exact ih (by omega)

theorem shown_get {n i : Nat} (h : i < n) :
    (shown set pr n).get i = set[(pr.resultSetStartPoint - 1).toNat + i]? := by
  rw [Npl.get, shown, find?_map_range _ h]
  rfl

/-- The response that is built of them. -/
theorem shown_gdu (hpr : InRange set pr) :
    (Result.built (total pr : Nat) (shown set pr (total pr))).gdu =
      some (.present { (PresentResponse.new : PresentResponse (Option ρ)) with
        numberOfRecordsReturned := pr.numberOfRecordsRequested
        records := (whole set pr).records.map (Records.map some) }) := by
  have hfirst := hpr.start
  have hpos := hpr.number
  have hlast := hpr.last
  have htotal : ((total pr : Nat) : Int) = pr.numberOfRecordsRequested := by
    rw [total]
    omega
  have hrecords : ((List.range (total pr)).map fun (i : Nat) => (shown set pr (total pr)).get i) =
      ((set.drop (pr.resultSetStartPoint - 1).toNat).take (total pr)).map some := by
    refine List.ext_getElem? fun i => ?_
    rw [List.getElem?_map, List.getElem?_map]
    by_cases hi : i < total pr
    · have hin : (pr.resultSetStartPoint - 1).toNat + i < set.length := by
        rw [total] at hi
        omega
      rw [List.getElem?_range hi, List.getElem?_take_of_lt hi, List.getElem?_drop, Option.map_some,
        shown_get hi, List.getElem?_eq_getElem hin]
      rfl
    · rw [List.getElem?_eq_none (by simpa using hi), List.getElem?_eq_none]
      · rfl
      · rw [List.length_take]
        omega
  simp only [Result.gdu, Int.toNat_natCast, hrecords]
  simp only [htotal]
  rfl

/-- From chunk `j` on, when the loop wants all chunks before chunk `n`. -/
theorem chunkLoop_shown (t : Target set pr) (hchunk : 1 ≤ chunkNumber) (hpr : InRange set pr)
    {n : Nat} (hwants : ∀ k < n, Wants (amount false (t.answers chunkNumber)) (total pr) k)
    (hfull : filled (amount false (t.answers chunkNumber)) n = total pr) {j m : Nat} (hj : j ≤ n)
    (hm : n ≤ j + m) :
    ∃ c, chunkLoop chunkNumber false pr ((List.range' j m).map (t.answers chunkNumber))
        (filled (amount false (t.answers chunkNumber)) j : Nat)
        (shown set pr (filled (amount false (t.answers chunkNumber)) j)) = some c ∧
      c.result = .built (total pr : Nat) (shown set pr (total pr)) := by
  induction m generalizing j with
  | zero =>
    obtain rfl : j = n := by omega
    have hdone : ¬ ((total pr : Nat) : Int) < pr.numberOfRecordsRequested := by
      rw [lt_requested_iff]
      exact Nat.lt_irrefl _
    rw [hfull, chunkLoop_done hdone]
    exact ⟨_, rfl, rfl⟩
  | succ m ih =>
    rcases Nat.eq_or_lt_of_le hj with rfl | hj
    · have hdone : ¬ ((total pr : Nat) : Int) < pr.numberOfRecordsRequested := by
        rw [lt_requested_iff]
        exact Nat.lt_irrefl _
      rw [hfull, chunkLoop_done hdone]
      exact ⟨_, rfl, rfl⟩
    · obtain ⟨number, -, -, ha⟩ := t.goesOn_answers hchunk hpr (hwants j hj)
      have hsucc : filled (amount false (t.answers chunkNumber)) (j + 1) =
          filled (amount false (t.answers chunkNumber)) j + number := by
        rw [filled_succ, amount_eq_some ha]
        rfl
      obtain ⟨c, hc, hresult⟩ := ih hj (by omega)
      rw [List.range'_succ, List.map_cons,
        chunkLoop_some ((lt_requested_iff _).mpr (hwants j hj).below) ha,
        filled_goesOn (t.counts_answers hchunk hpr) (hwants j hj) ha, shown_put hpr.start, ← hsucc, hc]
      exact ⟨_, rfl, hresult⟩

theorem exists_chunks (t : Target set pr) (hchunk : 1 ≤ chunkNumber) (hpr : InRange set pr) :
    ∃ n, (∀ k < n, Wants (amount false (t.answers chunkNumber)) (total pr) k) ∧
      filled (amount false (t.answers chunkNumber)) n = total pr := by
  refine exists_filled ?_ ?_ ?_
  · rintro ⟨k, hk, hempty⟩
    obtain ⟨m, hpos, -, ha⟩ := t.goesOn_answers hchunk hpr hk
    have hzero := hempty k (Nat.le_refl k)
    rw [amount_eq_some ha] at hzero
    have heq : m = 0 := Option.some.inj hzero
    omega
  · rintro ⟨k, a, hk, ha', hlt⟩
    obtain ⟨m, -, hle, ha⟩ := t.goesOn_answers hchunk hpr hk
    rw [amount_eq_some ha] at ha'
    have heq : m = a := Option.some.inj ha'
    omega
  · intro k hk
    obtain ⟨m, -, -, ha⟩ := t.goesOn_answers hchunk hpr hk
    rw [amount_eq_some ha]
    rfl

theorem chunkIt_shown (t : Target set pr) (hchunk : 1 ≤ chunkNumber) (hpr : InRange set pr) :
    (∃ n c, chunkIt chunkNumber false pr ((List.range n).map (t.answers chunkNumber)) = some c) ∧
    ∀ n c, chunkIt chunkNumber false pr ((List.range n).map (t.answers chunkNumber)) = some c →
      c.result = .built (total pr : Nat) (shown set pr (total pr)) := by
  obtain ⟨last, hwants, hfull⟩ := exists_chunks t hchunk hpr
  have hafter : ∀ n, last ≤ n →
      ∃ c, chunkIt chunkNumber false pr ((List.range n).map (t.answers chunkNumber)) = some c ∧
        c.result = .built (total pr : Nat) (shown set pr (total pr)) := by
    intro n hn
    rw [chunkIt, List.range_eq_range']
    exact chunkLoop_shown t hchunk hpr hwants hfull (Nat.zero_le last) (by omega)
  constructor
  · obtain ⟨c, hc, -⟩ := hafter last (Nat.le_refl last)
    exact ⟨last, c, hc⟩
  · intro n c hc
    rcases Nat.lt_or_ge n last with hlt | hge
    · rw [(chunkIt_eq_none_iff (t.counts_answers hchunk hpr) n).mpr (hwants n hlt)] at hc
      cases hc
    · obtain ⟨c', hc', hresult⟩ := hafter n hge
      rw [hc] at hc'
      obtain rfl := Option.some.inj hc'
      exact hresult

/-! ## The reference target -/

open BackendTest in
def backendSet (recordSyntax : Oid) (name : List Char) : List NamePlusRecord :=
  (List.range resultSetSize.toNat).map fun (i : Nat) => record recordSyntax name (i + 1)

open BackendTest in
theorem window_backendSet (recordSyntax : Oid) (name : List Char) {start number : Int}
    (hstart : 1 ≤ start) (hlast : start + number - 1 ≤ 42) :
    (window (backendSet recordSyntax name) start number).records =
      (List.range number.toNat).map fun (i : Nat) => record recordSyntax name (start + i) := by
  refine List.ext_getElem? fun i => ?_
  rw [window, List.getElem?_map]
  by_cases hi : i < number.toNat
  · have hin : (start - 1).toNat + i < 42 := by omega
    have hpos : (((start - 1).toNat + i : Nat) : Int) + 1 = start + i := by omega
    have hsize : resultSetSize.toNat = 42 := rfl
    rw [List.getElem?_take_of_lt hi, List.getElem?_drop, backendSet, List.getElem?_map,
      List.getElem?_range hi, hsize, List.getElem?_range hin, Option.map_some, Option.map_some, hpos]
  · rw [List.getElem?_eq_none (l := List.range _) (by simpa using hi), List.getElem?_eq_none]
    · rfl
    · rw [List.length_take]
      omega

open BackendTest in
/-- `filter_backend_test.cpp` answers with all records asked for. -/
def backendTarget (pr : PresentRequest) (name : List Char)
    (hname : compositionName pr.recordComposition = some name)
    (hcheck : check (pr.preferredRecordSyntax.getD Oid.usmarc) name = .ok ()) :
    Target (backendSet (pr.preferredRecordSyntax.getD Oid.usmarc) name) pr where
  answer _ req := ⟨false, some (.present (present req))⟩
  serves _ start number h := by
    have hstart : 1 ≤ start := h.start
    have hnumber : 1 ≤ number := h.number
    have hlen : ((backendSet (pr.preferredRecordSyntax.getD Oid.usmarc) name).length : Int) = 42 := by
      rw [backendSet, List.length_map, List.length_range]
      rfl
    have hlast : start + number - 1 ≤ 42 := by
      rw [← hlen]
      exact h.last
    have hcast : ((number.toNat : Nat) : Int) = number := Int.toNat_of_nonneg (by omega)
    have hpresent : present (windowRequest pr start number) = _ :=
      present_of_check hstart (Int.lt_iff_add_one_le.mpr hnumber) hlast hname hcheck
    refine ⟨number.toNat, _, by omega, by omega, rfl, ?_⟩
    rw [hpresent]
    refine ⟨?_, hcast.symm, ?_, fun _ => rfl⟩
    · have hwindow := window_backendSet (pr.preferredRecordSyntax.getD Oid.usmarc) name hstart hlast
      rw [hcast]
      exact congrArg (fun l => some (Records.databaseOrSurDiagnostics ⟨number, l⟩)) hwindow.symm
    · rw [positionAfter, hlen, hcast]
      rfl

/-- Records in the default syntax and composition. -/
def presentsFrom (start number : Int) : PresentRequest where
  resultSetId := "default"
  resultSetStartPoint := start
  numberOfRecordsRequested := number
  preferredRecordSyntax := none
  recordComposition := none

def testTarget (start number : Int) :
    Target (backendSet Oid.usmarc ['F']) (presentsFrom start number) :=
  backendTarget (presentsFrom start number) ['F'] rfl rfl

theorem presentsFrom_inRange {start number : Int} (hstart : 1 ≤ start) (hnumber : 1 ≤ number)
    (hlast : start + number - 1 ≤ 42) :
    InRange (backendSet Oid.usmarc ['F']) (presentsFrom start number) :=
  ⟨hstart, hnumber, hlast⟩

/-! ## The response -/

structure SameResponse (res : PresentResponse (Option ρ)) (plain : PresentResponse ρ) : Prop where
  records : res.records = plain.records.map (Records.map some)
  numberReturned : res.numberOfRecordsReturned = plain.numberOfRecordsReturned
  nextPosition : res.nextResultSetPosition = plain.nextResultSetPosition
  status : res.presentStatus = plain.presentStatus

/-- `chunk_it` comes to an end with the response of one present. -/
def EqualsWhole (t : Target set pr) (chunkNumber : Int) : Prop :=
  (∃ n c, chunkIt chunkNumber false pr ((List.range n).map (t.answers chunkNumber)) = some c) ∧
  ∀ n c, chunkIt chunkNumber false pr ((List.range n).map (t.answers chunkNumber)) = some c →
    ∃ res, c.result.gdu = some (.present res) ∧ SameResponse res (whole set pr)

theorem nextResultSetPosition_whole (hpr : InRange set pr) :
    (whole set pr).nextResultSetPosition = 0 ↔
      pr.resultSetStartPoint + pr.numberOfRecordsRequested - 1 = set.length := by
  have hfirst := hpr.start
  have hpos := hpr.number
  have hlast := hpr.last
  simp only [whole, positionAfter]
  split <;> omega

theorem equalsWhole_of_position (t : Target set pr) (hchunk : 1 ≤ chunkNumber)
    (hpr : InRange set pr) (h : (whole set pr).nextResultSetPosition = 0) :
    EqualsWhole t chunkNumber := by
  obtain ⟨hends, hresult⟩ := chunkIt_shown t hchunk hpr
  refine ⟨hends, ?_⟩
  intro n c hc
  rw [hresult n c hc, shown_gdu hpr]
  exact ⟨_, rfl, rfl, rfl, h.symm, rfl⟩

theorem position_of_equalsWhole (t : Target set pr) (hchunk : 1 ≤ chunkNumber)
    (hpr : InRange set pr) (h : EqualsWhole t chunkNumber) :
    (whole set pr).nextResultSetPosition = 0 := by
  obtain ⟨⟨n, c, hc⟩, hsame⟩ := h
  obtain ⟨res, hres, hsame⟩ := hsame n c hc
  rw [(chunkIt_shown t hchunk hpr).2 n c hc, shown_gdu hpr] at hres
  obtain rfl := Gdu.present.inj (Option.some.inj hres)
  exact hsame.nextPosition.symm

theorem chunkIt_equalsWhole_iff (t : Target set pr) (hchunk : 1 ≤ chunkNumber)
    (hpr : InRange set pr) :
    EqualsWhole t chunkNumber ↔
      pr.resultSetStartPoint + pr.numberOfRecordsRequested - 1 = set.length := by
  rw [← nextResultSetPosition_whole hpr]
  exact ⟨position_of_equalsWhole t hchunk hpr, equalsWhole_of_position t hchunk hpr⟩

/-- The last two records, one by one. -/
theorem chunkIt_equalsWhole_end : EqualsWhole (testTarget 41 2) 1 := by
  have hpr : InRange (backendSet Oid.usmarc ['F']) (presentsFrom 41 2) :=
    presentsFrom_inRange (by decide) (by decide) (by decide)
  exact (chunkIt_equalsWhole_iff (testTarget 41 2) (by decide) hpr).mpr rfl

/-- The first two are followed by others. -/
theorem chunkIt_not_equalsWhole : ¬ EqualsWhole (testTarget 1 2) 1 := by
  intro h
  have hpr : InRange (backendSet Oid.usmarc ['F']) (presentsFrom 1 2) :=
    presentsFrom_inRange (by decide) (by decide) (by decide)
  exact absurd (position_of_equalsWhole (testTarget 1 2) (by decide) hpr h) (by decide)

end PresentChunk
end Metaproxy
