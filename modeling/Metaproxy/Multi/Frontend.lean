import Mathlib.Algebra.Order.Ring.Int
import Metaproxy.Lib.Table
import Metaproxy.Multi.FrontendSet
import Metaproxy.Multi.Scan
import Metaproxy.Z3950

/-!
# Multi.Frontend

The frontend session of `filter_multi.cpp`: each request is sent to the backends at once, and one
response is made of theirs.

A backend has one package, which is used for every request. `move` sets its response and may close
its session; if nothing on the way answers, the response of an earlier request stays. What a backend
does is an `Outcome` that comes with the request, as is the content `ρ` of records. `none` for a
response is a package without one; `undefined` stands for what the C++ leaves undefined. Requests
sent and members of responses that are read are listed in the order in which that happens.
-/

namespace Metaproxy
namespace Multi

open Lib Z3950

/-! ## Data -/

inductive MergeType where
  | roundRobin
  | serveOrder
deriving DecidableEq, Repr

structure Map where
  targetPattern : String
  route : String
  auth : String

/-- The configuration, with the two YAZ functions the filter calls on it: `yaz_match_glob` and
`cs_get_host_args`. -/
structure Rep where
  routePatterns : List Map
  hideUnavailable : Bool
  hideErrors : Bool
  mergeType : MergeType
  matchGlob : String → String → Bool
  hostArgs : String → Option String

inductive IdAuthentication where
  | open (s : String)
  | other (encoding : List UInt8)
deriving DecidableEq, Repr

structure InitRequest where
  /-- The targets of `get_vhost_otherinfo`. -/
  vhosts : List String
  idAuthentication : Option IdAuthentication
  preferredMessageSize : Int
  maximumRecordSize : Int
  /-- The bits that are set. -/
  options : List Nat
  protocolVersion : List Nat
  clientIp : Option String
deriving DecidableEq, Repr

structure InitResponse where
  options : List Nat
  protocolVersion : List Nat
  preferredMessageSize : Int
  maximumRecordSize : Int
  result : Bool
  userInformationField : Option (List UInt8)
deriving DecidableEq, Repr

structure SearchRequest where
  resultSetName : String
  databaseNames : List String
  smallSetUpperBound : Int
  largeSetLowerBound : Int
  mediumSetPresentNumber : Int
  preferredRecordSyntax : Option Oid
  query : List UInt8
deriving DecidableEq, Repr

structure NamePlusRecord (ρ : Type*) where
  databaseName : Option String
  record : ρ
deriving DecidableEq, Repr

structure SearchResponse (ρ : Type*) where
  resultCount : Int
  numberOfRecordsReturned : Int
  nextResultSetPosition : Int
  records : Option (Records (NamePlusRecord ρ))

inductive Gdu (ρ : Type*) where
  | init (res : InitResponse)
  | search (res : SearchResponse ρ)
  | present (res : PresentResponse (NamePlusRecord ρ))
  | scan (res : ScanResponse)
  | close (diagnosticInformation : String)
  | other (encoding : List UInt8)

/-- What a package asks for. -/
inductive Request where
  | init (req : InitRequest)
  | search (req : SearchRequest)
  | present (req : PresentRequest)
  | scan (req : ScanRequest)
  | close
  | other (encoding : List UInt8)
  /-- No Z39.50 request, as in a package that closes a session. -/
  | none

structure Package (ρ : Type*) where
  closed : Bool
  response : Option (Gdu ρ)

structure Outcome (ρ : Type*) where
  closed : Bool
  /-- `none` when nothing answers. -/
  response : Option (Gdu ρ)

/-- `m_package->move(m_route)`. -/
def Package.move {ρ : Type*} (p : Package ρ) (o : Outcome ρ) : Package ρ where
  closed := p.closed || o.closed
  response := o.response.or p.response

structure Backend (ρ : Type*) where
  vhost : String
  route : String
  auth : String
  package : Package ρ

abbrev BackendPtr := Nat

structure Frontend (ρ : Type*) where
  isMulti : Bool
  backendList : List BackendPtr
  distinct : backendList.Nodup
  backends : BackendPtr → Backend ρ
  sets : Table String (FrontendSet BackendPtr)

/-- The services of the filter. -/
inductive Service where
  | init
  | search
  | present
  | scan
deriving DecidableEq, Repr

def Request.service : Request → Option Service
  | .init _ => some .init
  | .search _ => some .search
  | .present _ => some .present
  | .scan _ => some .scan
  | _ => Option.none

def Gdu.service {ρ : Type*} : Gdu ρ → Option Service
  | .init _ => some .init
  | .search _ => some .search
  | .present _ => some .present
  | .scan _ => some .scan
  | _ => none

/-- What is read of the response of a backend. -/
inductive Read where
  /-- A member of the response, as a response of the service. -/
  | response (b : BackendPtr) (service : Service)
  /-- `records[k]` of a present response. -/
  | record (b : BackendPtr) (k : Int) (numRecords : Int)
deriving DecidableEq, Repr

inductive Answer (ρ : Type*) where
  | response (gdu : Option (Gdu ρ))
  | undefined

/-- What comes of a request of the client. -/
structure Result (ρ : Type*) where
  frontend : Frontend ρ
  sent : List (BackendPtr × Request)
  read : List Read
  /-- The client's session is closed. -/
  closed : Bool
  answer : Answer ρ

variable {ρ : Type*}

/-- The constructor. -/
def Frontend.new : Frontend ρ where
  isMulti := false
  backendList := []
  distinct := .nil
  backends _ := ⟨"", "", "", false, none⟩
  sets := ∅

def Frontend.response (f : Frontend ρ) (b : BackendPtr) : Option (Gdu ρ) :=
  (f.backends b).package.response

def Frontend.isClosed (f : Frontend ρ) (b : BackendPtr) : Bool := (f.backends b).package.closed

/-- Each backend of the list has moved its package. -/
def Frontend.multiMove (f : Frontend ρ) (blist : List BackendPtr) (out : BackendPtr → Outcome ρ) :
    Frontend ρ :=
  { f with
    backends := fun b =>
      if b ∈ blist then { f.backends b with package := (f.backends b).package.move (out b) }
      else f.backends b }

/-! ## `record_diagnostics` -/

/-- What the loop over the responses has found. -/
structure Found where
  /-- The last backend whose session is closed, `close_p`. -/
  closeP : Option BackendPtr
  zDiag : Option (List DiagRec)
  noSuccessful : Nat

def recordDiagnostics {α : Type*} (records : Option (Records α)) (g : Found) : Found :=
  match records with
  | some (.nonSurrogateDiagnostic d) =>
    { g with zDiag := some (g.zDiag.getD [] ++ [.defaultFormat d]) }
  | some (.multipleNonSurDiagnostics dr) => { g with zDiag := some (g.zDiag.getD [] ++ dr) }
  | some (.databaseOrSurDiagnostics _) => { g with noSuccessful := g.noSuccessful + 1 }
  | none => { g with noSuccessful := g.noSuccessful + 1 }

/-- The loop of `search` and `present`; `records` picks the responses of the right type. -/
def look {α : Type*} (records : Gdu ρ → Option (Option (Records α))) (f : Frontend ρ)
    (blist : List BackendPtr) : Found :=
  blist.foldl (fun g b =>
    let g := if f.isClosed b then { g with closeP := some b } else g
    match (f.response b).bind records with
    | some r => recordDiagnostics r g
    | none => g) ⟨none, none, 0⟩

def Gdu.searchRecords : Gdu ρ → Option (Option (Records (NamePlusRecord ρ)))
  | .search res => some res.records
  | _ => none

def Gdu.presentRecords : Gdu ρ → Option (Option (Records (NamePlusRecord ρ)))
  | .present res => some res.records
  | _ => none

/-- A close, or diagnostics, are passed on unless they are hidden behind a success. -/
def Found.reports (g : Found) (hide : Bool) : Bool := g.noSuccessful = 0 || !hide

/-- One diagnostic is passed on in default format, whatever it is. -/
def diagnosticRecords {α : Type*} (zDiag : List DiagRec) : Option (Records α) :=
  if zDiag.length > 1 then some (.multipleNonSurDiagnostics zDiag)
  else
    match zDiag with
    | .defaultFormat d :: _ => some (.nonSurrogateDiagnostic d)
    | _ => none

/-! ## `present` -/

def FrontendSet.jobs (rep : Rep) (fset : FrontendSet BackendPtr) (start number : Int) :
    List (PresentJob BackendPtr) :=
  match rep.mergeType with
  | .roundRobin => fset.roundRobin start number
  | .serveOrder => fset.serveOrder start number

/-- Least and greatest position of a backend; -1 when there is none yet. -/
def window (b : BackendPtr) (jobs : List (PresentJob BackendPtr)) : Int × Int :=
  jobs.foldl (fun (start, last) job =>
    if job.backend = b then
      (if start = -1 ∨ job.pos < start then job.pos else start,
        if last = -1 ∨ job.pos > last then job.pos else last)
    else (start, last)) (-1, -1)

structure Ask where
  backend : BackendPtr
  start : Int
  number : Int
deriving DecidableEq, Repr

/-- The loop over the sets: `m_start` of the jobs, and what the backends are asked for. -/
def plan : List (BackendSet BackendPtr) → List (PresentJob BackendPtr) →
    List (PresentJob BackendPtr) × List Ask
  | [], jobs => (jobs, [])
  | bs :: sets, jobs =>
    let (start, last) := window bs.backend jobs
    if start ≠ -1 then
      let jobs := jobs.map fun job =>
        if job.backend = bs.backend ∧ job.pos ≥ start ∧ job.pos ≤ last then { job with start }
        else job
      let (jobs, asks) := plan sets jobs
      (jobs, ⟨bs.backend, start, last - start + 1⟩ :: asks)
    else plan sets jobs

/-- The response of a backend that closed, when it is passed on. -/
def Found.close (g : Found) (hide : Bool) : Option BackendPtr :=
  if g.reports hide then g.closeP else none

/-- The diagnostics, when they are passed on. -/
def Found.diagnostics (g : Found) (hide : Bool) : Option (List DiagRec) :=
  if g.reports hide then g.zDiag else none

inductive Decision where
  | closed (b : BackendPtr)
  | diagnostics (zDiag : List DiagRec)
  | outOfRange
  | assemble
deriving DecidableEq, Repr

def Found.decide (g : Found) (hideErrors : Bool) (number : Int) (jobs : Nat) : Decision :=
  match g.close hideErrors, g.diagnostics hideErrors with
  | some b, _ => .closed b
  | none, some zDiag => .diagnostics zDiag
  | none, none => if number < 0 ∨ number > jobs then .outOfRange else .assemble

/-- `records[k]`. -/
def recordAt {α : Type*} (l : NamePlusRecordList α) (k : Int) : Option α :=
  if 0 ≤ k then l.records[k.toNat]? else none

def PresentJob.insidePos (job : PresentJob BackendPtr) : Int := job.pos - job.start

/-- What the loop over the jobs reads for one of them. The loop is listed to its end, also after a
read that is undefined. -/
def jobReads (f : Frontend ρ) (job : PresentJob BackendPtr) : List Read :=
  .response job.backend .present ::
    match f.response job.backend with
    | some (.present ⟨_, _, _, some (.databaseOrSurDiagnostics l), _⟩) =>
      if job.insidePos < l.numRecords then [.record job.backend job.insidePos l.numRecords] else []
    | _ => []

/-- The record for a job, if there is one; the outer `none` is an undefined read. -/
def jobRecord (f : Frontend ρ) (job : PresentJob BackendPtr) : Option (Option (NamePlusRecord ρ)) :=
  match f.response job.backend with
  | some (.present res) =>
    match res.records with
    | some (.databaseOrSurDiagnostics l) =>
      if job.insidePos < l.numRecords then
        (recordAt l job.insidePos).map fun r =>
          some { r with databaseName := some (f.backends job.backend).vhost }
      else some none
    | _ => some none
  | _ => none

def assemble (f : Frontend ρ) : List (PresentJob BackendPtr) → Option (List (NamePlusRecord ρ))
  | [] => some []
  | job :: jobs =>
    (jobRecord f job).bind fun r => (assemble f jobs).map (r.toList ++ ·)

/-- The responses of the right type. -/
def readResponses (service : Service) (f : Frontend ρ) (blist : List BackendPtr) : List Read :=
  (blist.filter fun b => (f.response b).bind Gdu.service = some service).map (.response · service)

def Ask.request (req : PresentRequest) (a : Ask) : PresentRequest :=
  { req with resultSetStartPoint := a.start, numberOfRecordsRequested := a.number }

def presentDiagnostics (zDiag : List DiagRec) : Answer ρ :=
  match diagnosticRecords zDiag with
  | some records => .response (some (.present ⟨0, 0, .success, some records, none⟩))
  | none => .undefined

def presentRecords (start : Int) : Option (List (NamePlusRecord ρ)) → Answer ρ
  | some l =>
    .response (some (.present
      { numberOfRecordsReturned := l.length
        nextResultSetPosition := start + l.length
        presentStatus := .success
        records := some (.databaseOrSurDiagnostics ⟨l.length, l⟩)
        otherInfo := none }))
  | none => .undefined

def present (rep : Rep) (f : Frontend ρ) (req : PresentRequest) (out : BackendPtr → Outcome ρ) :
    Result ρ :=
  match f.sets.lookup req.resultSetId with
  | none =>
    { frontend := f
      sent := []
      read := []
      closed := false
      answer := .response (some (.present
        (.diagnostic .specifiedResultSetDoesNotExist req.resultSetId.toList))) }
  | some fset =>
    let start := Util.toInt req.resultSetStartPoint
    let number := Util.toInt req.numberOfRecordsRequested
    let (jobs, asks) := plan fset.backendSets (fset.jobs rep start number)
    let blist := asks.map Ask.backend
    let f := f.multiMove blist out
    let sent := asks.map fun a => (a.backend, Request.present (a.request req))
    let read := readResponses .present f blist
    match (look Gdu.presentRecords f blist).decide rep.hideErrors number jobs.length with
    | .closed b => ⟨f, sent, read, true, .response (f.response b)⟩
    | .diagnostics zDiag =>
      { frontend := f, sent, read
        closed := false
        answer := presentDiagnostics zDiag }
    | .outOfRange =>
      { frontend := f, sent, read
        closed := false
        answer := .response (some (.present (.diagnostic .presentRequestOutOfRange []))) }
    | .assemble =>
      { frontend := f, sent
        read := read ++ jobs.flatMap (jobReads f)
        closed := false
        answer := presentRecords start (assemble f jobs) }

/-! ## `search` -/

/-- The request for a backend; bounds that disable piggyback. -/
def SearchRequest.forBackend (hostArgs : String → Option String) (req : SearchRequest)
    (vhost : String) : SearchRequest :=
  { req with
    smallSetUpperBound := 0
    largeSetLowerBound := 1
    mediumSetPresentNumber := 0
    databaseNames := (Util.databasesFromZurl hostArgs vhost).getD req.databaseNames }

def Gdu.resultCount : Gdu ρ → Option Int
  | .search res => some res.resultCount
  | _ => none

/-- The result set of the responses; `m_count` is an `int`. -/
def Frontend.resultSet (f : Frontend ρ) (setname : String) : FrontendSet BackendPtr :=
  .ofResponses setname f.backendList f.distinct fun b =>
    ((f.response b).bind Gdu.resultCount).map Util.toInt

def Frontend.resultSetSize (f : Frontend ρ) : Int :=
  (f.backendList.filterMap fun b => (f.response b).bind Gdu.resultCount).sum

def searchAnswer (size : Int) : Option (List DiagRec) → Answer ρ
  | none => .response (some (.search ⟨size, 0, 0, none⟩))
  | some zDiag =>
    match diagnosticRecords zDiag with
    | some records => .response (some (.search ⟨size, 0, 0, some records⟩))
    | none => .undefined

/-- `pout` is what the backends do with the present request of a piggyback. -/
def search (rep : Rep) (f : Frontend ρ) (req : SearchRequest) (out pout : BackendPtr → Outcome ρ) :
    Result ρ :=
  let sent := f.backendList.map fun b =>
    (b, Request.search (req.forBackend rep.hostArgs (f.backends b).vhost))
  let f := f.multiMove f.backendList out
  let read := readResponses .search f f.backendList
  let g := look Gdu.searchRecords f f.backendList
  match g.close rep.hideUnavailable with
  | some b => ⟨f, sent, read, true, .response (f.response b)⟩
  | none =>
    let size := f.resultSetSize
    let f := { f with sets := f.sets.insert req.resultSetName (f.resultSet req.resultSetName) }
    let number := Util.piggyback req.smallSetUpperBound req.largeSetLowerBound
      req.mediumSetPresentNumber size
    if g.zDiag = none ∧ number > 0 then
      let r := present rep f ⟨req.resultSetName, 1, number, req.preferredRecordSyntax, none⟩ pout
      { r with
        sent := sent ++ r.sent
        read := read ++ r.read
        answer :=
          match r.answer with
          | .response (some (.present res)) =>
            .response (some (.search
              ⟨size, res.numberOfRecordsReturned, res.nextResultSetPosition, res.records⟩))
          | answer => answer }
    else
      { frontend := f, sent, read
        closed := false
        answer := searchAnswer size (g.diagnostics rep.hideErrors) }

/-! ## `scan` -/

def Gdu.scanResponse : Gdu ρ → Option ScanResponse
  | .scan res => some res
  | _ => none

/-- The package of a backend for the merge of `Multi.Scan`. -/
def Frontend.backendResult (f : Frontend ρ) (b : BackendPtr) : BackendResult where
  closed := f.isClosed b
  response :=
    match f.response b with
    | some (.scan res) => .scan res
    | some _ => .other []
    | none => .none

/-- The scan responses that are read: to the first with diagnostics, or the first package without
a scan response. -/
def scanRead (f : Frontend ρ) : List BackendPtr → List Read
  | [] => []
  | b :: blist =>
    match (f.response b).bind Gdu.scanResponse with
    | some res =>
      .response b .scan ::
        if (res.entries.bind ListEntries.nonsurrogateDiagnostics).isSome then []
        else scanRead f blist
    | none => []

def Frontend.scan (rep : Rep) (f : Frontend ρ) (req : ScanRequest) (out : BackendPtr → Outcome ρ) :
    Result ρ :=
  let sent := f.backendList.map fun b =>
    (b, Request.scan (req.forBackend rep.hostArgs (f.backends b).vhost))
  let f := f.multiMove f.backendList out
  let read := scanRead f f.backendList
  match Multi.scan req (f.backendList.map f.backendResult) with
  | some (closed, .scan res) => ⟨f, sent, read, closed, .response (some (.scan res))⟩
  | some (closed, _) =>
    -- the first that is not a scan response is returned
    { frontend := f, sent, read, closed
      answer := .response
        ((f.backendList.find? fun b => ((f.response b).bind Gdu.scanResponse).isNone).bind
          f.response) }
  | none => ⟨f, sent, read, false, .undefined⟩

/-! ## `init` and `close` -/

namespace Options

def search : Nat := 0

def present : Nat := 1

def scan : Nat := 7

def namedResultSets : Nat := 14

end Options

/-- What the proxy itself can do. -/
def ownOptions : List Nat :=
  [Options.search, Options.present, Options.namedResultSets, Options.scan]

/-- Versions 1 to 3, as bits. -/
def ownVersions : List Nat := [0, 1, 2]

/-- The loop over the routes; without a match both stay empty. -/
def Rep.routeOf (rep : Rep) (target : String) : String × String :=
  match rep.routePatterns.find? fun m => rep.matchGlob m.targetPattern target with
  | some m => (m.route, m.auth)
  | none => ("", "")

def Backend.new (rep : Rep) (vhost : String) : Backend ρ where
  vhost
  route := (rep.routeOf vhost).1
  auth := (rep.routeOf vhost).2
  package := ⟨false, none⟩

def InitRequest.forBackend (req : InitRequest) (b : Backend ρ) : InitRequest where
  vhosts := [b.vhost]
  idAuthentication := if b.auth ≠ "" then some (.open b.auth) else req.idAuthentication
  preferredMessageSize := req.preferredMessageSize
  maximumRecordSize := req.maximumRecordSize
  options := ownOptions
  protocolVersion := ownVersions
  clientIp := req.clientIp

structure Negotiated where
  res : InitResponse
  noFailed : Nat
  noSucceeded : Nat

/-- A backend's init response, counted in. -/
def negotiate (f : Frontend ρ) (s : Negotiated) (b : BackendPtr) : Negotiated :=
  if f.isClosed b then { s with noFailed := s.noFailed + 1 }
  else
    match f.response b with
    | some (.init res) =>
      let common :=
        { s.res with
          options := s.res.options.filter (· ∈ res.options)
          protocolVersion := s.res.protocolVersion.filter (· ∈ res.protocolVersion) }
      if res.result then
        { s with
          res :=
            { common with
              preferredMessageSize := min s.res.preferredMessageSize res.preferredMessageSize
              maximumRecordSize := min s.res.maximumRecordSize res.maximumRecordSize }
          noSucceeded := s.noSucceeded + 1 }
      else
        { s with
          res :=
            { common with
              userInformationField := s.res.userInformationField.or res.userInformationField }
          noFailed := s.noFailed + 1 }
    | _ => { s with noFailed := s.noFailed + 1 }

/-- The backends are made from the targets; those that close at once are left out again. Without
targets the package is moved on, and nothing is returned. `m_backend_list` is empty before. -/
def init (rep : Rep) (f : Frontend ρ) (req : InitRequest) (out : BackendPtr → Outcome ρ) :
    Option (Result ρ) :=
  if req.vhosts = [] then none
  else
    let backends := fun b => Backend.new rep (req.vhosts.getD b "")
    let blist := List.range req.vhosts.length
    let f : Frontend ρ :=
      { f with isMulti := true, backendList := blist, distinct := List.nodup_range, backends }
    let sent := blist.map fun b => (b, Request.init (req.forBackend (f.backends b)))
    let f := f.multiMove blist out
    let own : InitResponse :=
      { options := ownOptions
        protocolVersion := ownVersions
        preferredMessageSize := req.preferredMessageSize
        maximumRecordSize := req.maximumRecordSize
        result := true
        userInformationField := none }
    let s := blist.foldl (negotiate f) ⟨own, 0, 0⟩
    let failed : Bool := if rep.hideUnavailable then s.noSucceeded = 0 else s.noFailed ≠ 0
    some
      { frontend :=
          { f with
            backendList := blist.filter fun b => !f.isClosed b
            distinct := List.nodup_range.filter _ }
        sent
        read := readResponses .init f (blist.filter fun b => !f.isClosed b)
        closed := failed
        answer := .response (some (.init { s.res with result := !failed })) }

/-- `relay_apdu`, for a close request. The last response is the client's. -/
def relay (f : Frontend ρ) (req : Request) (out : BackendPtr → Outcome ρ) : Result ρ :=
  let sent := f.backendList.map fun b => (b, req)
  let f := f.multiMove f.backendList out
  { frontend := f, sent
    read := []
    closed := f.backendList.any f.isClosed
    answer := .response (f.backendList.getLast?.bind f.response) }

/-- The session of the client is closed: every backend is sent a package that closes its own. -/
def Frontend.close (f : Frontend ρ) : List (BackendPtr × Request) :=
  f.backendList.map fun b => (b, .none)

def refuse (f : Frontend ρ) (diagnosticInformation : String) : Result ρ :=
  ⟨f, [], [], true, .response (some (.close diagnosticInformation))⟩

/-- `Multi::process`; nothing is returned when the package is moved on. -/
def process (rep : Rep) (f : Frontend ρ) (req : Request) (out pout : BackendPtr → Outcome ρ) :
    Option (Result ρ) :=
  match f.isMulti, req with
  | false, .init req => init rep f req out
  | false, _ => none
  | true, .init _ => some (refuse f "double init")
  | true, .search req => some (search rep f req out pout)
  | true, .present req => some (present rep f req out)
  | true, .scan req => some (f.scan rep req out)
  | true, .close => some (relay f .close out)
  | true, .other _ => some (refuse f "unsupported APDU in filter multi")
  | true, .none => some ⟨f, [], [], false, .response none⟩

end Multi
end Metaproxy
