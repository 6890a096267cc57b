import Mathlib.Data.List.Induction
import Metaproxy.BackendTest
import Metaproxy.SessionShared.Frontend

/-!
# SessionShared.Present

The records of a present on a backend set: from its record cache, or from the target. The cache is
yazpp's and is a parameter; what is relied on is `RecordCache.Sound`. With `backend_test` for the
target, a response from the cache is the one the target would have given, but for
`nextResultSetPosition` of a window that reaches the end of the set: the target says 0 there, and
the cache says the position after the last record (`present_cached`, `present_end`).

`Fetched` is the invariant: what is in the cache are the records that the target has at those
positions.
-/

namespace Metaproxy
namespace SessionShared

open BackendTest (NamePlusRecord)
open Z3950 (RecordComposition PresentResponse NamePlusRecordList)

/-- `yazpp_1::RecordCache`, by what is called of it. -/
structure RecordCache (κ : Type*) where
  empty : κ
  add : κ → List NamePlusRecord → Int → Option RecordComposition → κ
  lookup : κ → Int → Int → Option Oid → Option RecordComposition → Option (List NamePlusRecord)

/-- A call of `add`, with the record syntax that the records had been asked for in. -/
structure Added where
  recordSyntax : Option Oid
  start : Int
  records : List NamePlusRecord
  composition : Option RecordComposition

variable {κ : Type*}

def RecordCache.after (C : RecordCache κ) (adds : List Added) : κ :=
  adds.foldl (fun cache a => C.add cache a.records a.start a.composition) C.empty

/-- Records are found for exactly the positions asked for, each added there under that composition
and under that syntax, which is the one it was asked for in or the one it has. -/
def RecordCache.Sound (C : RecordCache κ) : Prop :=
  ∀ adds start number recordSyntax composition records, 0 < number →
    C.lookup (C.after adds) start number recordSyntax composition = some records →
    (records.length : Int) = number ∧
    ∀ (k : Nat) r, records[k]? = some r → ∃ a ∈ adds, a.composition = composition ∧
      (a.recordSyntax = recordSyntax ∨ (recordSyntax.isSome ∧ r.syntax_ = recordSyntax)) ∧
      ∃ j : Nat, a.records[j]? = some r ∧ a.start + j = start + k

/-! ## `present` -/

/-- What `cacheable` looks at. -/
def window (req : Z3950.PresentRequest) : PresentRequest where
  resultSetId := req.resultSetId
  resultSetStartPoint := req.resultSetStartPoint
  numberOfRecordsRequested := req.numberOfRecordsRequested

def lookup (C : RecordCache κ) (cache : κ) (req : Z3950.PresentRequest) :
    Option (List NamePlusRecord) :=
  if (window req).cacheable then
    C.lookup cache req.resultSetStartPoint req.numberOfRecordsRequested req.preferredRecordSyntax
      req.recordComposition
  else none

def cachedResponse (req : Z3950.PresentRequest) (records : List NamePlusRecord) :
    PresentResponse NamePlusRecord :=
  { (PresentResponse.new : PresentResponse NamePlusRecord) with
    numberOfRecordsReturned := req.numberOfRecordsRequested
    nextResultSetPosition := req.resultSetStartPoint + req.numberOfRecordsRequested
    records := some (.databaseOrSurDiagnostics ⟨records.length, records⟩) }

/-- The request that is sent on, for the set of the backend. -/
def targetRequest (resultSetId : String) (req : Z3950.PresentRequest) : Z3950.PresentRequest :=
  { req with resultSetId }

/-- The client's response is copied from the target's. -/
def forwardedResponse (b : PresentResponse NamePlusRecord) : PresentResponse NamePlusRecord :=
  { (PresentResponse.new : PresentResponse NamePlusRecord) with
    numberOfRecordsReturned := b.numberOfRecordsReturned
    nextResultSetPosition := b.nextResultSetPosition
    presentStatus := b.presentStatus
    records := b.records
    otherInfo := b.otherInfo }

/-- What is added to the cache after the target has answered. -/
def added (req : Z3950.PresentRequest) (b : PresentResponse NamePlusRecord) : Option Added :=
  match b.records with
  | some (.databaseOrSurDiagnostics npr) =>
    if req.resultSetStartPoint > 0 ∧ npr.numRecords + req.resultSetStartPoint < 2147483647 then
      some ⟨req.preferredRecordSyntax, req.resultSetStartPoint, npr.records, req.recordComposition⟩
    else none
  | _ => none

section

variable (C : RecordCache κ) (target : Z3950.PresentRequest → PresentResponse NamePlusRecord)
  (resultSetId : String)

/-- A present that does not look at the cache. -/
def forward (req : Z3950.PresentRequest) : PresentResponse NamePlusRecord :=
  forwardedResponse (target (targetRequest resultSetId req))

/-- The response, and the cache afterwards. -/
def present (cache : κ) (req : Z3950.PresentRequest) : PresentResponse NamePlusRecord × κ :=
  match lookup C cache req with
  | some records => (cachedResponse req records, cache)
  | none =>
    (forward target resultSetId req,
      match added req (target (targetRequest resultSetId req)) with
      | some a => C.add cache a.records a.start a.composition
      | none => cache)

/-- The cache of a set after presents on it, in this order. -/
def cacheAfter (history : List Z3950.PresentRequest) : κ :=
  history.foldl (fun cache req => (present C target resultSetId cache req).2) C.empty

end

/-- The four members that the two responses are compared in. -/
structure Agree (r r' : PresentResponse NamePlusRecord) : Prop where
  records : r.records = r'.records
  number : r.numberOfRecordsReturned = r'.numberOfRecordsReturned
  status : r.presentStatus = r'.presentStatus
  next : r.nextResultSetPosition = r'.nextResultSetPosition

/-! ## What the cache holds -/

/-- The records that the target has there. -/
def Fetched (a : Added) : Prop :=
  ∃ name, BackendTest.compositionName a.composition = some name ∧
    BackendTest.check (a.recordSyntax.getD Oid.usmarc) name = .ok () ∧
    ∀ (j : Nat) r, a.records[j]? = some r →
      r = BackendTest.record (a.recordSyntax.getD Oid.usmarc) name (a.start + j) ∧
      1 ≤ a.start + j ∧ a.start + j ≤ 42

/-- The bound on what is added keeps windows out that would wrap around. -/
theorem fetched_added {req : Z3950.PresentRequest} {resultSetId : String} {a : Added}
    (h : added req (BackendTest.present (targetRequest resultSetId req)) = some a) :
    Fetched a := by
  unfold added at h
  split at h
  · rename_i npr hrecords
    split at h
    · rename_i hbounds
      cases h
      obtain ⟨name, hname, hcheck, hnum, hstart, hend, hlist⟩ :=
        BackendTest.of_present_records hrecords
      refine ⟨name, hname, hcheck, fun j r hr => ?_⟩
      simp only [targetRequest] at hnum hstart hend hlist
      rw [hlist, List.getElem?_map] at hr
      obtain ⟨i, hi, rfl⟩ := Option.map_eq_some_iff.mp hr
      obtain ⟨hj, hij⟩ := List.getElem?_eq_some_iff.mp hi
      rw [List.length_range] at hj
      rw [List.getElem_range] at hij
      subst hij
      have hs : Util.toInt req.resultSetStartPoint = req.resultSetStartPoint :=
        Util.toInt_eq (by omega) (by omega)
      rw [hs, ← hnum] at hend
      rw [Util.toInt_eq (by omega) (by omega)] at hend
      have hlo : 1 ≤ req.resultSetStartPoint + (j : Int) := by omega
      have hhi : req.resultSetStartPoint + (j : Int) ≤ 42 := by omega
      rw [hs]
      exact ⟨rfl, hlo, hhi⟩
    · cases h
  · cases h

/-- The cache of a set holds records of the target only. -/
def Holds (C : RecordCache κ) (cache : κ) : Prop :=
  ∃ adds, cache = C.after adds ∧ ∀ a ∈ adds, Fetched a

theorem holds_empty (C : RecordCache κ) : Holds C C.empty := ⟨[], rfl, List.forall_mem_nil _⟩

variable {C : RecordCache κ} {cache : κ} {req : Z3950.PresentRequest}

theorem Holds.present (h : Holds C cache) (resultSetId : String) (req : Z3950.PresentRequest) :
    Holds C (present C BackendTest.present resultSetId cache req).2 := by
  unfold SessionShared.present
  split
  · exact h
  · simp only
    split
    · rename_i a ha
      obtain ⟨adds, rfl, hall⟩ := h
      refine ⟨adds ++ [a], (by rw [RecordCache.after, RecordCache.after, List.foldl_append]; rfl),
        fun a' ha' => ?_⟩
      rcases List.mem_append.mp ha' with ha' | ha'
      · exact hall a' ha'
      · rw [List.mem_singleton.mp ha']
        exact fetched_added ha
    · exact h

theorem holds_after (C : RecordCache κ) (resultSetId : String)
    (history : List Z3950.PresentRequest) :
    Holds C (cacheAfter C BackendTest.present resultSetId history) := by
  have hfold : ∀ (history : List Z3950.PresentRequest) cache, Holds C cache →
      Holds C (history.foldl
        (fun cache req => (present C BackendTest.present resultSetId cache req).2) cache) := by
    intro history
    induction history with
    | nil =>
      intro cache h
      exact h
    | cons req history ih =>
      intro cache h
      exact ih _ (h.present resultSetId req)
  exact hfold history _ (holds_empty C)

/-! ## A response from the cache -/

theorem lookup_range {records : List NamePlusRecord} (hhit : lookup C cache req = some records) :
    1 ≤ req.resultSetStartPoint ∧ 0 < req.numberOfRecordsRequested ∧
      C.lookup cache req.resultSetStartPoint req.numberOfRecordsRequested
        req.preferredRecordSyntax req.recordComposition = some records := by
  unfold lookup at hhit
  split at hhit
  · rename_i hcacheable
    simp only [PresentRequest.cacheable, window, Bool.and_eq_true] at hcacheable
    obtain ⟨⟨⟨hstart, -⟩, hnumber⟩, -⟩ := hcacheable
    exact ⟨of_decide_eq_true hstart, of_decide_eq_true hnumber, hhit⟩
  · cases hhit

/-- The record syntax of a found record decides: it is the one asked for. -/
theorem found_record (hC : C.Sound) (h : Holds C cache) {records : List NamePlusRecord}
    (hhit : lookup C cache req = some records) {k : Nat} {r : NamePlusRecord}
    (hr : records[k]? = some r) :
    ∃ name, BackendTest.compositionName req.recordComposition = some name ∧
      BackendTest.check (req.preferredRecordSyntax.getD Oid.usmarc) name = .ok () ∧
      r = BackendTest.record (req.preferredRecordSyntax.getD Oid.usmarc) name
        (req.resultSetStartPoint + k) ∧
      req.resultSetStartPoint + k ≤ 42 := by
  obtain ⟨adds, rfl, hall⟩ := h
  obtain ⟨-, hnumber, hlookup⟩ := lookup_range hhit
  obtain ⟨-, hfound⟩ := hC _ _ _ _ _ _ hnumber hlookup
  obtain ⟨a, ha, hcomp, hform, j, hj, hposition⟩ := hfound k r hr
  obtain ⟨name, hname, hcheck, hrecords⟩ := hall a ha
  obtain ⟨hrecord, -, hend⟩ := hrecords j r hj
  have hsame : req.preferredRecordSyntax.getD Oid.usmarc = a.recordSyntax.getD Oid.usmarc := by
    rcases hform with hform | ⟨hsome, hform⟩
    · rw [hform]
    · rw [← hform] at hsome ⊢
      rcases BackendTest.syntax_record hcheck (a.start + j) with hown | hown
      · rw [hrecord, hown] at hsome
        cases hsome
      · rw [hrecord, hown]
        rfl
  rw [hcomp] at hname
  rw [hposition] at hrecord hend
  rw [hsame]
  exact ⟨name, hname, hcheck, hrecord, hend⟩

/-- The records found are the window of the target. -/
theorem found_window (hC : C.Sound) (h : Holds C cache) {records : List NamePlusRecord}
    (hhit : lookup C cache req = some records) :
    ∃ name, BackendTest.compositionName req.recordComposition = some name ∧
      BackendTest.check (req.preferredRecordSyntax.getD Oid.usmarc) name = .ok () ∧
      1 ≤ req.resultSetStartPoint ∧ 0 < req.numberOfRecordsRequested ∧
      req.resultSetStartPoint + req.numberOfRecordsRequested - 1 ≤ 42 ∧
      (records.length : Int) = req.numberOfRecordsRequested ∧
      records = (List.range req.numberOfRecordsRequested.toNat).map fun (i : Nat) =>
        BackendTest.record (req.preferredRecordSyntax.getD Oid.usmarc) name
          (req.resultSetStartPoint + i) := by
  obtain ⟨hstart, hnumber, hlookup⟩ := lookup_range hhit
  have hlength : (records.length : Int) = req.numberOfRecordsRequested := by
    obtain ⟨adds, rfl, -⟩ := h
    exact (hC _ _ _ _ _ _ hnumber hlookup).1
  have hlt : records.length - 1 < records.length := by omega
  obtain ⟨name, hname, hcheck, -, hend⟩ :=
    found_record hC h hhit (List.getElem?_eq_getElem hlt)
  refine ⟨name, hname, hcheck, hstart, hnumber, by omega, hlength, ?_⟩
  refine List.ext_getElem (by simp [← hlength]) fun k hk hk' => ?_
  obtain ⟨name', hname', -, hrecord, -⟩ := found_record hC h hhit (List.getElem?_eq_getElem hk)
  rw [hname] at hname'
  cases hname'
  rw [hrecord, List.getElem_map, List.getElem_range]

/-- What forwarding the request would have given. -/
theorem forward_found (resultSetId : String) (hC : C.Sound) (h : Holds C cache) {records : List NamePlusRecord}
    (hhit : lookup C cache req = some records) :
    forward BackendTest.present resultSetId req =
      { cachedResponse req records with
        nextResultSetPosition :=
          if req.resultSetStartPoint + req.numberOfRecordsRequested > 42 then 0
          else req.resultSetStartPoint + req.numberOfRecordsRequested } := by
  obtain ⟨name, hname, hcheck, hstart, hnumber, hend, hlength, hrecords⟩ :=
    found_window hC h hhit
  have hpresent : BackendTest.present (targetRequest resultSetId req) = _ :=
    BackendTest.present_of_check hstart hnumber hend hname hcheck
  rw [forward, hpresent]
  simp only [forwardedResponse, cachedResponse, targetRequest, ← hrecords, hlength]
  rfl

/-- After any presents on the set: a present gives the records, their number and the status that
forwarding it would have given. The next position is the same too if and only if the request is not
answered from the cache or its window does not reach the last record. -/
theorem present_cached (C : RecordCache κ) (hC : C.Sound) (resultSetId : String)
    (history : List Z3950.PresentRequest) (req : Z3950.PresentRequest) :
    let cache := cacheAfter C BackendTest.present resultSetId history
    let response := (present C BackendTest.present resultSetId cache req).1
    let forwarded := forward BackendTest.present resultSetId req
    (response.records = forwarded.records ∧
      response.numberOfRecordsReturned = forwarded.numberOfRecordsReturned ∧
      response.presentStatus = forwarded.presentStatus) ∧
    (Agree response forwarded ↔
      lookup C cache req = none ∨ req.resultSetStartPoint + req.numberOfRecordsRequested ≤ 42) := by
  have hholds := holds_after C resultSetId history
  intro cache response forwarded
  cases hhit : lookup C cache req with
  | none =>
    have hsame : response = forwarded := by
      simp only [response, present, hhit]
      rfl
    rw [hsame]
    exact ⟨⟨rfl, rfl, rfl⟩, fun _ => .inl rfl, fun _ => ⟨rfl, rfl, rfl, rfl⟩⟩
  | some records =>
    have hresponse : response = cachedResponse req records := by
      simp only [response, present, hhit]
    have hforwarded := forward_found resultSetId hC hholds hhit
    obtain ⟨-, -, -, hstart, hnumber, -, -, -⟩ := found_window hC hholds hhit
    obtain ⟨hrecords, hnumber', hstatus⟩ : (cachedResponse req records).records =
          forwarded.records ∧
        (cachedResponse req records).numberOfRecordsReturned = forwarded.numberOfRecordsReturned ∧
        (cachedResponse req records).presentStatus = forwarded.presentStatus := by
      simp [forwarded, hforwarded]
    have hnext : forwarded.nextResultSetPosition =
        if req.resultSetStartPoint + req.numberOfRecordsRequested > 42 then 0
        else req.resultSetStartPoint + req.numberOfRecordsRequested := by
      simp only [forwarded, hforwarded]
    rw [hresponse]
    refine ⟨⟨hrecords, hnumber', hstatus⟩, fun hagree => .inr ?_, fun hok => ?_⟩
    · have heq := hagree.next.trans hnext
      simp only [cachedResponse] at heq
      by_contra hlt
      rw [if_pos (by omega)] at heq
      omega
    · have hle : req.resultSetStartPoint + req.numberOfRecordsRequested ≤ 42 :=
        hok.resolve_left (by simp)
      rw [if_neg (by omega)] at hnext
      exact ⟨hrecords, hnumber', hstatus, hnext.symm⟩

/-! ### A page at the end -/

/-- A record in a cache, with its position. -/
structure Entry where
  position : Int
  composition : Option RecordComposition
  record : NamePlusRecord

/-- The records from a position on. -/
def find (cache : List Entry) (recordSyntax : Option Oid) (composition : Option RecordComposition) :
    Int → Nat → Option (List NamePlusRecord)
  | _, 0 => some []
  | start, number + 1 =>
    match cache.find? fun e => e.position = start ∧ e.composition = composition ∧
        recordSyntax.isSome ∧ e.record.syntax_ = recordSyntax with
    | some e => (find cache recordSyntax composition (start + 1) number).map (e.record :: ·)
    | none => none

/-- A cache that keeps everything. -/
def keepAll : RecordCache (List Entry) where
  empty := []
  add cache records start composition :=
    cache ++ records.zipIdx.map fun r => ⟨start + (r.2 : Int), composition, r.1⟩
  lookup cache start number recordSyntax composition :=
    find cache recordSyntax composition start number.toNat

theorem mem_keepAll {adds : List Added} {e : Entry} (h : e ∈ keepAll.after adds) :
    ∃ a ∈ adds, a.composition = e.composition ∧
      ∃ j : Nat, a.records[j]? = some e.record ∧ a.start + j = e.position := by
  induction adds using List.reverseRecOn with
  | nil => cases h
  | append_singleton adds a ih =>
    rw [RecordCache.after, List.foldl_append] at h
    rcases List.mem_append.mp h with h | h
    · obtain ⟨a', ha', hfound⟩ := ih h
      exact ⟨a', List.mem_append_left _ ha', hfound⟩
    · obtain ⟨⟨r, j⟩, hr, rfl⟩ := List.mem_map.mp h
      exact ⟨a, by simp, rfl, j, List.mem_zipIdx_iff_getElem?.mp hr, rfl⟩

theorem find_spec {cache : List Entry} {recordSyntax : Option Oid}
    {composition : Option RecordComposition} {start : Int} {number : Nat}
    {records : List NamePlusRecord}
    (h : find cache recordSyntax composition start number = some records) :
    records.length = number ∧ ∀ (k : Nat) r, records[k]? = some r → ∃ e ∈ cache,
      e.position = start + k ∧ e.composition = composition ∧
      (recordSyntax.isSome ∧ e.record.syntax_ = recordSyntax) ∧ e.record = r := by
  induction number generalizing start records with
  | zero =>
    cases h
    refine ⟨rfl, fun k r hr => ?_⟩
    cases hr
  | succ number ih =>
    rw [find] at h
    split at h
    · rename_i e he
      obtain ⟨rest, hrest, rfl⟩ := Option.map_eq_some_iff.mp h
      obtain ⟨hlength, hfound⟩ := ih hrest
      refine ⟨by simp [hlength], fun k r hr => ?_⟩
      cases k with
      | zero =>
        cases hr
        have hmatch : e.position = start ∧ e.composition = composition ∧ recordSyntax.isSome ∧
            e.record.syntax_ = recordSyntax := by
          simpa using List.find?_some he
        exact ⟨e, List.mem_of_find?_eq_some he, by simp [hmatch.1], hmatch.2.1, hmatch.2.2, rfl⟩
      | succ k =>
        obtain ⟨e', he', hposition, hrest⟩ := hfound k r hr
        refine ⟨e', he', ?_, hrest⟩
        rw [hposition]
        push_cast
        omega
    · cases h

theorem keepAll_sound : keepAll.Sound := by
  intro adds start number recordSyntax composition records hnumber h
  obtain ⟨hlength, hfound⟩ := find_spec h
  refine ⟨by omega, fun k r hr => ?_⟩
  obtain ⟨e, he, hposition, hcomp, hform, rfl⟩ := hfound k r hr
  obtain ⟨a, ha, hcomp', j, hj, hposition'⟩ := mem_keepAll he
  exact ⟨a, ha, hcomp'.trans hcomp, .inr hform, j, hj, hposition'.trans hposition⟩

def lastTwo : Z3950.PresentRequest := ⟨"default", 41, 2, some Oid.usmarc, none⟩

def firstTwo : Z3950.PresentRequest := ⟨"default", 1, 2, some Oid.usmarc, none⟩

theorem present_cached_first :
    Agree (present keepAll BackendTest.present "1"
      (cacheAfter keepAll BackendTest.present "1" [firstTwo]) firstTwo).1
      (forward BackendTest.present "1" firstTwo) :=
  (present_cached keepAll keepAll_sound "1" [firstTwo] firstTwo).2.mpr (.inr (by decide))

/-- The last two records are fetched twice. -/
theorem present_end :
    ¬ ∀ history req,
      Agree (present keepAll BackendTest.present "1"
        (cacheAfter keepAll BackendTest.present "1" history) req).1
        (forward BackendTest.present "1" req) := by
  intro h
  exact absurd (h [lastTwo] lastTwo).next (by decide)

end SessionShared
end Metaproxy
