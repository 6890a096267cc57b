import Metaproxy.Multi.Answered
import Metaproxy.Multi.MergedIndex

/-!
# Multi.Served

Requests with `hideunavailable` that some backend answers with success. Each of the services has its
own condition under which the session stays open, the client gets a response of the right type, made
of responses to this request, and only backends that are open are asked.

* `present_served` — no asked backend closes, unless errors are hidden too.
* `search_served` — a backend that closes is hidden, but a piggyback must not go to it.
* `scan_served` — no backend closes, and every one of them answers, up to one with diagnostics.
* `init_served` — no condition.
-/

namespace Metaproxy
namespace Multi

open Lib Z3950

variable {ρ : Type*}

/-- Lists come from a decoder: they have as many records as they say. -/
def Outcome.Decoded (o : Outcome ρ) : Prop :=
  ∀ res l, o.response = some (.present res) → res.records = some (.databaseOrSurDiagnostics l) →
    l.numRecords = l.records.length

/-! ## Present -/

/-- More than one diagnostic, or one in default format: the others are not passed on as such. -/
def Passable (zDiag : List DiagRec) : Prop :=
  1 < zDiag.length ∨ ∃ d, zDiag = [.defaultFormat d]

def Outcome.diagnostics {α : Type*} (records : Gdu ρ → Option (Option (Records α)))
    (o : Outcome ρ) : List DiagRec :=
  diagnosticsOf ((o.response.bind records).getD none)

/-- The backends asked are open, and answer; without `hideerrors` none closes, and diagnostics can
be passed on. -/
structure PresentKept (rep : Rep) (f : Frontend ρ) (req : PresentRequest)
    (out : BackendPtr → Outcome ρ) (fset : FrontendSet BackendPtr) : Prop where
  opened : ∀ b, Asked (jobsOf rep fset req) b → f.isClosed b = false
  answers : AllAnswer rep f req out fset
  closing : rep.hideErrors = false → ∀ b, Asked (jobsOf rep fset req) b → (out b).closed = false
  diagnostics : rep.hideErrors = false →
    (∃ b, Asked (jobsOf rep fset req) b ∧ (out b).fails Gdu.presentRecords = true) →
    Passable (((asksOf rep fset req).map Ask.backend).flatMap fun b =>
      (out b).diagnostics Gdu.presentRecords)

section Present

variable {rep : Rep} {f : Frontend ρ} {req : PresentRequest} {out : BackendPtr → Outcome ρ}
  {fset : FrontendSet BackendPtr}

end Present

/-! ## Search -/

/-- After the responses to a search. -/
def afterSearch (f : Frontend ρ) (req : SearchRequest) (out : BackendPtr → Outcome ρ) :
    Frontend ρ :=
  { f.multiMove f.backendList out with
    sets := f.sets.insert req.resultSetName
      ((f.multiMove f.backendList out).resultSet req.resultSetName) }

/-- The present request of a piggyback. -/
def piggybackRequest (f : Frontend ρ) (req : SearchRequest) (out : BackendPtr → Outcome ρ) :
    PresentRequest where
  resultSetId := req.resultSetName
  resultSetStartPoint := 1
  numberOfRecordsRequested := Util.piggyback req.smallSetUpperBound req.largeSetLowerBound
    req.mediumSetPresentNumber (f.multiMove f.backendList out).resultSetSize
  preferredRecordSyntax := req.preferredRecordSyntax
  recordComposition := none

/-- No backend answers with diagnostics, and records are wanted. -/
def Piggybacks (f : Frontend ρ) (req : SearchRequest) (out : BackendPtr → Outcome ρ) : Prop :=
  (∀ b ∈ f.backendList, (out b).fails Gdu.searchRecords = false) ∧
    0 < (piggybackRequest f req out).numberOfRecordsRequested

/-- All backends are open; one that does not answer has no old search response; without `hideerrors`
diagnostics can be passed on. -/
structure SearchKept (rep : Rep) (f : Frontend ρ) (req : SearchRequest)
    (out pout : BackendPtr → Outcome ρ) : Prop where
  opened : ∀ b ∈ f.backendList, f.isClosed b = false
  fresh : ∀ b ∈ f.backendList, Fresh Gdu.searchRecords f out b
  diagnostics : rep.hideErrors = false →
    (∃ b ∈ f.backendList, (out b).fails Gdu.searchRecords = true) →
    Passable (f.backendList.flatMap fun b => (out b).diagnostics Gdu.searchRecords)
  piggyback : Piggybacks f req out →
    ∀ fset, (afterSearch f req out).sets.lookup req.resultSetName = some fset →
      PresentKept rep (afterSearch f req out) (piggybackRequest f req out) pout fset

section Search

variable {rep : Rep} {f : Frontend ρ} {req : SearchRequest} {out pout : BackendPtr → Outcome ρ}

/-- The result set has backends of the list only. -/
theorem mem_resultSet {g : Frontend ρ} {setname : String} {b : BackendPtr}
    (h : b ∈ (g.resultSet setname).backendSets.map BackendSet.backend) : b ∈ g.backendList :=
  (map_backend_filterMap g.backendList _).subset h

/-- The search requests for the backends. -/
def searchSent (rep : Rep) (f : Frontend ρ) (req : SearchRequest) : List (BackendPtr × Request) :=
  f.backendList.map fun b =>
    (b, Request.search (req.forBackend rep.hostArgs (f.backends b).vhost))

/-- A search that does not pass on a close. -/
theorem search_eq (hclose : (look Gdu.searchRecords (f.multiMove f.backendList out)
      f.backendList).close rep.hideUnavailable = none) :
    search rep f req out pout =
      if (look Gdu.searchRecords (f.multiMove f.backendList out) f.backendList).zDiag = none ∧
          (piggybackRequest f req out).numberOfRecordsRequested > 0 then
        { present rep (afterSearch f req out) (piggybackRequest f req out) pout with
          sent := searchSent rep f req ++
            (present rep (afterSearch f req out) (piggybackRequest f req out) pout).sent
          read := readResponses .search (f.multiMove f.backendList out) f.backendList ++
            (present rep (afterSearch f req out) (piggybackRequest f req out) pout).read
          answer :=
            match (present rep (afterSearch f req out) (piggybackRequest f req out) pout).answer with
            | .response (some (.present res)) =>
              .response (some (.search ⟨(f.multiMove f.backendList out).resultSetSize,
                res.numberOfRecordsReturned, res.nextResultSetPosition, res.records⟩))
            | answer => answer }
      else
        { frontend := afterSearch f req out
          sent := searchSent rep f req
          read := readResponses .search (f.multiMove f.backendList out) f.backendList
          closed := false
          answer := searchAnswer (f.multiMove f.backendList out).resultSetSize
            ((look Gdu.searchRecords (f.multiMove f.backendList out) f.backendList).diagnostics
              rep.hideErrors) } := by
  have hlist : (f.multiMove f.backendList out).backendList = f.backendList := rfl
  unfold search
  simp only [hlist, hclose]
  rfl

end Search

/-! ## Scan -/

/-- The scan response, without diagnostics. -/
def scanDiagnostics (res : ScanResponse) : Option (List (List UInt8)) :=
  res.entries.bind ListEntries.nonsurrogateDiagnostics

/-- The backends answer with scan responses and do not close, up to the first with diagnostics. -/
def AnswersScan (out : BackendPtr → Outcome ρ) : List BackendPtr → Prop
  | [] => True
  | b :: blist =>
    (out b).closed = false ∧ ∃ res, (out b).response = some (.scan res) ∧
      (scanDiagnostics res = none → AnswersScan out blist)

/-- The terms before the start term that go into the response fit, and their number is given. -/
def Fits (req : ScanRequest) (before : List ScanTermInfo) : Prop :=
  ∃ p, req.preferredPositionInResponse = some p ∧
    min (p - 1) before.length ≤ max req.numberOfTermsRequested 0

structure ScanKept (f : Frontend ρ) (req : ScanRequest) (out : BackendPtr → Outcome ρ) : Prop where
  opened : ∀ b ∈ f.backendList, f.isClosed b = false
  answers : AnswersScan out f.backendList
  fits : ∀ g, gather req (f.backendList.map (f.multiMove f.backendList out).backendResult)
    ⟨false, [], []⟩ = .ok g → Fits req g.before

theorem fillBefore_of_le {position : Int} (h : position ≤ 1) (l : List ScanTermInfo)
    (entries : List (Option Entry)) : fillBefore position l 0 entries = some entries := by
  cases l with
  | nil => rfl
  | cons it rest => rw [fillBefore, if_neg (by omega)]

/-- What is filled on from entries that are all set can be returned. -/
theorem fillAfter_mapM (number : Int) (k : Nat) (done : List Entry) (after : List ScanTermInfo)
    (h : (done.length : Int) + k = number) :
    ∃ filled, fillAfter number after done.length
        (done.map some ++ List.replicate k none) = some filled ∧
      ∃ entries, (filled.2.take filled.1.toNat).mapM id = some entries := by
  refine ⟨_, fillAfter_eq number (done.map some) after _ (by simp) h,
    done ++ (after.take k).map ScanTermInfo.getEntry, ?_⟩
  have hset : done.map some ++ (after.take k).map (fun it => some it.getEntry) =
      (done ++ (after.take k).map ScanTermInfo.getEntry).map some := by
    simp [Function.comp_def]
  have hlen : ((done.length : Int) + (after.take k).length).toNat =
      ((done ++ (after.take k).map ScanTermInfo.getEntry).map some).length := by
    simp
    omega
  rw [hset, hlen, List.take_left, mapM_some]

theorem scanResponse_eq_some {req : ScanRequest} {before : List ScanTermInfo}
    (h : Fits req before) (after : List ScanTermInfo) :
    ∃ res, scanResponse req before after = some res := by
  obtain ⟨p, hp, hfits⟩ := h
  rw [scanResponse, hp, Option.bind_some]
  simp only
  generalize hposition : (if (before.length : Int) < p - 1 then (before.length : Int) + 1 else p) =
    position
  by_cases hle : position ≤ 1
  · -- no terms before: the response is filled from its start
    have hi : (if position ≤ 0 then 0 else position - 1) = 0 := by
      split_ifs <;> omega
    rw [fillBefore_of_le hle, Option.bind_some, hi]
    by_cases hneg : req.numberOfTermsRequested < 0
    · have hnil : req.numberOfTermsRequested.toNat = 0 := by omega
      cases after with
      | nil => simp [fillAfter, hnil]
      | cons it rest => simp [fillAfter, hnil, show ¬ 0 < req.numberOfTermsRequested by omega]
    · obtain ⟨filled, hfilled, entries, hentries⟩ := fillAfter_mapM
        req.numberOfTermsRequested req.numberOfTermsRequested.toNat [] after (by simp; omega)
      simp only [List.length_nil, Nat.cast_zero, List.map_nil, List.nil_append] at hfilled
      rw [hfilled, Option.bind_some, hentries]
      exact ⟨_, rfl⟩
  · have hbefore : (position - 1).toNat ≤ before.length := by
      split_ifs at hposition <;> omega
    have hnumber : (position - 1).toNat ≤ req.numberOfTermsRequested.toNat := by
      split_ifs at hposition <;> omega
    have hpos : position - 1 = ((position - 1).toNat : Nat) := by omega
    have hi : (if position ≤ 0 then 0 else position - 1) = ((position - 1).toNat : Nat) := by
      split_ifs <;> omega
    generalize (position - 1).toNat = L at hbefore hnumber hpos hi
    have hsplit : List.replicate req.numberOfTermsRequested.toNat (none : Option Entry) =
        List.replicate L none ++ List.replicate (req.numberOfTermsRequested.toNat - L) none := by
      rw [List.replicate_append_replicate]
      congr 1
      omega
    have hdone : (before.take L).reverse.map (fun it => some it.getEntry) =
        ((before.take L).reverse.map ScanTermInfo.getEntry).map some := by
      simp [Function.comp_def]
    have hlen : ((before.take L).reverse.map ScanTermInfo.getEntry).length = L := by
      simp
      omega
    obtain ⟨filled, hfilled, entries, hentries⟩ := fillAfter_mapM
      req.numberOfTermsRequested (req.numberOfTermsRequested.toNat - L)
      ((before.take L).reverse.map ScanTermInfo.getEntry) after (by rw [hlen]; omega)
    rw [hlen] at hfilled
    rw [hsplit, fillBefore_eq position _ before hbefore 0 (by omega), Option.bind_some, hi, hdone,
      hfilled, Option.bind_some, hentries]
    exact ⟨_, rfl⟩

section Scan

variable {rep : Rep} {f : Frontend ρ} {req : ScanRequest} {out : BackendPtr → Outcome ρ}

end Scan

/-! ## Init -/

/-- The backend stays open and accepts. -/
def Outcome.accepts (o : Outcome ρ) : Bool :=
  !o.closed &&
    match o.response with
    | some (.init res) => res.result
    | _ => false

def InitSucceeds (req : InitRequest) (out : BackendPtr → Outcome ρ) : Prop :=
  ∃ b < req.vhosts.length, (out b).accepts = true

structure InitServed (out : BackendPtr → Outcome ρ) (r : Result ρ) : Prop where
  closed : r.closed = false
  answer : ∃ res, r.answer = .response (some (.init res))
  response : ∀ b service, .response b service ∈ r.read →
    service = .init ∧ (out b).response.bind Gdu.service = some .init
  record : ∀ b k n, .record b k n ∉ r.read
  sent : ∀ e ∈ r.sent, e.2.service = some .init

section Init

variable {rep : Rep} {f : Frontend ρ} {req : InitRequest} {out : BackendPtr → Outcome ρ}

/-- A frontend with new backends, after the responses to their init requests. -/
structure Initiated (f : Frontend ρ) (out : BackendPtr → Outcome ρ) : Prop where
  isClosed : ∀ b ∈ f.backendList, f.isClosed b = (out b).closed
  response : ∀ b ∈ f.backendList, f.response b = (out b).response

theorem noSucceeded_negotiate (h : Initiated f out) {b : BackendPtr} (hb : b ∈ f.backendList)
    (s : Negotiated) :
    (negotiate f s b).noSucceeded = s.noSucceeded + if (out b).accepts then 1 else 0 := by
  unfold negotiate Outcome.accepts
  rw [h.isClosed b hb, h.response b hb]
  cases (out b).closed with
  | true => rfl
  | false =>
    cases (out b).response with
    | none => rfl
    | some gdu =>
      cases gdu with
      | init res => cases hresult : res.result <;> simp [hresult]
      | _ => rfl

theorem noSucceeded_foldl (h : Initiated f out) {blist : List BackendPtr}
    (hsub : ∀ b ∈ blist, b ∈ f.backendList) (s : Negotiated) :
    (blist.foldl (negotiate f) s).noSucceeded =
      s.noSucceeded + blist.countP fun b => (out b).accepts := by
  induction blist generalizing s with
  | nil => rfl
  | cons b blist ih =>
    rw [List.foldl_cons, ih (fun b' hb' => hsub b' (List.mem_cons_of_mem b hb')),
      noSucceeded_negotiate h (hsub b List.mem_cons_self), List.countP_cons]
    omega

theorem nodup_range_vhosts (req : InitRequest) : (List.range req.vhosts.length).Nodup :=
  List.nodup_range

/-- The frontend of `init`, after the responses. -/
def initiated (rep : Rep) (f : Frontend ρ) (req : InitRequest) (out : BackendPtr → Outcome ρ) :
    Frontend ρ :=
  { f with
    isMulti := true
    backendList := List.range req.vhosts.length
    distinct := nodup_range_vhosts req
    backends := fun b => Backend.new rep (req.vhosts.getD b "") }.multiMove
    (List.range req.vhosts.length) out

theorem initiated_initiated (rep : Rep) (f : Frontend ρ) (req : InitRequest)
    (out : BackendPtr → Outcome ρ) : Initiated (initiated rep f req out) out where
  isClosed b hb := by
    have hmem : b ∈ List.range req.vhosts.length := hb
    rw [initiated, isClosed_multiMove, if_pos hmem]
    rfl
  response b hb := by
    have hmem : b ∈ List.range req.vhosts.length := hb
    rw [initiated, response_multiMove, if_pos hmem]
    exact Option.or_none

theorem init_served (hhide : rep.hideUnavailable = true) (h : InitSucceeds req out) :
    ∃ r, init rep f req out = some r ∧ InitServed out r := by
  obtain ⟨b, hb, haccepts⟩ := h
  have hne : req.vhosts ≠ [] := List.ne_nil_of_length_pos (by omega)
  have hinit := initiated_initiated rep f req out
  refine ⟨_, if_neg hne, ?_, ⟨_, rfl⟩, fun b service h => ?_, fun b k n h => ?_, fun e he => ?_⟩
  · have hpos : 0 < (List.range req.vhosts.length).countP fun b => (out b).accepts :=
      List.countP_pos_iff.mpr ⟨b, List.mem_range.mpr hb, haccepts⟩
    simp only [hhide, if_true, decide_eq_false_iff_not]
    intro hzero
    have hcount := (noSucceeded_foldl hinit (fun b hb => hb) _).symm.trans hzero
    exact hpos.ne' (Nat.eq_zero_of_add_eq_zero_left hcount)
  · obtain ⟨b', hb', hservice, heq⟩ := mem_readResponses.mp h
    cases heq
    refine ⟨rfl, ?_⟩
    rw [← hinit.response b (List.mem_filter.mp hb').1]
    exact hservice
  · obtain ⟨b', hb', hservice, heq⟩ := mem_readResponses.mp h
    cases heq
  · obtain ⟨b', hb', rfl⟩ := List.mem_map.mp he
    rfl

end Init

end Multi
end Metaproxy
