import Metaproxy.Zoom.Databases

/-!
# Zoom.Search

`handle_search` and `handle_present` of `filter_zoom.cpp`. A search goes through as many attempts as
`retry` asks for (`attempt`, `searchLoop`); a null pointer that is followed and an assertion that
fails end the process.
-/

namespace Metaproxy
namespace Zoom

open Lib
open Z3950 (PresentRequest PresentResponse SearchResponse)

/-! ## Queries -/

/-- The tree with the configured fields, or the index without one. -/
def convertCqlFields (fieldmap : Table (List Char) (List Char)) :
    CqlNode → Except (List Char) CqlNode
  | .st none rest => .ok (.st none rest)
  | .st (some index) rest =>
    match fieldmap.lookup index with
    | none => .error index
    | some [] => .ok (.st none rest)
    | some field => .ok (.st (some field) rest)
  | .bool left right op =>
    match convertCqlFields fieldmap left with
    | .error index => .error index
    | .ok left => (convertCqlFields fieldmap right).map fun right => .bool left right op
  | .sort search keys => (convertCqlFields fieldmap search).map fun search => .sort search keys

/-- The CCL of a CQL query. The sort keys go to the target with the query. -/
def cqlToCcl (yaz : Yaz) (impl : Impl) (cql : List Char) : Except Diag (List Char) :=
  match yaz.cqlParserString cql with
  | none => .error ⟨.malformedQuery, "CQL syntax error".toList⟩
  | some cn =>
    match convertCqlFields impl.fieldmap cn with
    | .error index => .error ⟨.unsuppUseAttribute, index⟩
    | .ok cn =>
      match yaz.cqlToCcl cn with
      | none => .error ⟨.malformedQuery, "CQL to CCL conversion error".toList⟩
      | some ccl =>
        match yaz.cqlSortbyToSortkeys cn with
        | none => .error ⟨.illegalSortRelation, "CQL to CCL sortby conversion".toList⟩
        | some _ => .ok ccl

def cclDiagnostic (yaz : Yaz) (cerror : CclError) : Diag :=
  match cerror with
  | .other code => ⟨.malformedQuery, yaz.cclErrMsg (.other code)⟩
  | cerror => ⟨.unsuppSearch, yaz.cclErrMsg cerror⟩

/-- The prefix notation of a query; an empty CCL query has none. -/
def toPqf (yaz : Yaz) (impl : Impl) (sptr : Searchable) (query : Query) :
    Except Diag (List Char) :=
  let fromCcl (ccl : List Char) : Except Diag (List Char) :=
    if ccl = [] then .ok []
    else
      match yaz.cclFindStr sptr.cclBibset ccl with
      | .error cerror => .error (cclDiagnostic yaz cerror)
      | .ok pqf => .ok pqf
  match query with
  | .type1 pqf => .ok pqf
  | .type2 ccl => fromCcl ccl
  | .type104 cql =>
    match cqlToCcl yaz impl cql with
    | .error error => .error error
    | .ok ccl => fromCcl ccl
  | .other _ => .error ⟨.queryTypeUnsupp, []⟩

/-- The query for the target; `none` when `assert(pqf_wrbuf.len())` fails. -/
def toZoomQuery (yaz : Yaz) (impl : Impl) (sptr : Searchable) (query : Query) :
    Option (Except Diag (List Char)) :=
  match toPqf yaz impl sptr query with
  | .error error => some (.error error)
  | .ok [] => none
  | .ok pqf =>
    if sptr.sru = [] then some (.ok pqf) else some (yaz.rpn2cql sptr.rpn2cqlFname sptr.sru pqf)

/-! ## Records -/

/-- ZOOM has no record here. -/
def ZoomRecord.generated (r : ZoomRecord) : Bool :=
  r.error = some ⟨.systemErrorInPresentingRecords,
    "ZOOM C generated. Present phase and no records".toList⟩

/-- The records in front of the first that is missing. -/
def available (recs : List (Option ZoomRecord)) : List ZoomRecord :=
  (recs.takeWhile fun r => r.any (!·.generated)).reduceOption

def ZoomRecord.npr (databaseName : List Char) (r : ZoomRecord) : NamePlusRecord :=
  match r.error with
  | some d => .surrogateDiagnostic databaseName d
  | none =>
    match r.content with
    | .error d => .surrogateDiagnostic databaseName d
    | .ok content => .databaseRecord databaseName content

/-- What `get_records` and `get_explain_records` come to. -/
structure GetRecords where
  /-- The result set given to `Backend::present`, if that is called. -/
  presented : Option (Option Nat)
  error : Option Diag
  records : Option (List NamePlusRecord)

def getRecords (start numberToPresent : Int) (b : Backend) (zoom : Presented) : GetRecords :=
  if start < 0 ∨ numberToPresent ≤ 0 then ⟨none, none, none⟩
  else
    let numberToPresent := min numberToPresent 10000
    let recs := available (zoom.recs.take numberToPresent.toNat)
    match zoom.error with
    | some error => ⟨some b.resultset, some error, none⟩
    | none =>
      ⟨some b.resultset, none,
        if recs = [] then none else some (recs.map (ZoomRecord.npr b.frontendDatabase))⟩

/-- From the `m`th element on. `none`: the element has no child to copy. -/
def explainLoop (databaseName : List Char) (doc : List XmlNode) (m : Int) :
    Nat → Option (List NamePlusRecord)
  | 0 => some []
  | n + 1 =>
    match (xmlNodeSearch (Util.toInt m) doc 0).1 with
    | none => some []
    | some [] => none
    | some (child :: _) =>
      (explainLoop databaseName doc (m + 1) n).map (.explainRecord databaseName child :: ·)

def getExplainRecords (start numberToPresent : Int) (e : Explained) : Option GetRecords :=
  (explainLoop e.frontendDatabase e.explainDoc (start + 1) (min numberToPresent 10000).toNat).map
    fun l => ⟨none, none, some l⟩

/-! ## `retry` -/

structure Loop where
  frontend : Frontend
  proxyStep : Nat
  sameRetries : Nat
  proxyRetries : Nat

inductive Retried where
  | again (l : Loop)
  | no (f : Frontend) (error : Diag)

def retry (l : Loop) (b : Option Backend) (error : Diag) (checkProxy : Bool) : Retried :=
  match b with
  | none => .no l.frontend error
  | some b =>
    let reset := { l.frontend with backend := none }
    if b.proxy ≠ [] ∧ !checkProxy then
      if l.proxyStep ≠ 0 then
        .again { l with frontend := reset, proxyRetries := l.proxyRetries + 1 }
      else .no reset ⟨.proxyFailure, b.proxy⟩
    else if b.retryOnFailure ≠ "0".toList ∧ l.sameRetries = 0 ∧ l.proxyRetries = 0 then
      .again { l with frontend := reset, proxyStep := 0, sameRetries := l.sameRetries + 1 }
    else .no l.frontend error

/-! ## `handle_search` -/

/-- What a request comes to. -/
structure Handled (α : Type) where
  frontend : Frontend
  response : α
  presented : Option (Option Nat)

inductive Attempted where
  | again (l : Loop)
  | done (h : Handled (SearchResponse NamePlusRecord))
  | aborted

/-- The end of an attempt with an error, unless there is another one. -/
def orRetry : Retried → Attempted
  | .again l => .again l
  | .no f error =>
    .done ⟨f, .diagnostic error.condition error.addinfo, none⟩

/-- `Backend::search`; the result set of an earlier search is gone. -/
def Frontend.search (f : Frontend) (b : Backend) : Frontend × Backend :=
  let b := { b with resultset := some f.made }
  ({ f with backend := some (.target b), made := f.made + 1 }, b)

def numberToPresent (sr : SearchRequest) (hits : Int) : Int :=
  Util.piggyback sr.smallSetUpperBound sr.largeSetLowerBound sr.mediumSetPresentNumber hits

def withRecords (res : SearchResponse NamePlusRecord) (records : Option (List NamePlusRecord)) :
    SearchResponse NamePlusRecord :=
  match records with
  | none => res
  | some l =>
    { res with
      records := some (.databaseOrSurDiagnostics ⟨l.length, l⟩)
      numberOfRecordsReturned := l.length }

/-- The response of a search that found something, with the first records. -/
def found (f : Frontend) (hits : Int) (g : GetRecords) : Handled (SearchResponse NamePlusRecord) :=
  match g.error with
  | some error =>
    ⟨f, { SearchResponse.diagnostic error.condition error.addinfo with resultCount := hits },
      g.presented⟩
  | none => ⟨f, withRecords (searchResponse hits) g.records, g.presented⟩

variable (yaz : Yaz) (impl : Impl)

/-- A search with the backend of this attempt. -/
def searchBackend (sr : SearchRequest) (l : Loop) (b : Backend) (a : Attempt) : Attempted :=
  match toZoomQuery yaz impl b.sptr sr.query with
  | none => .aborted
  | some (.error error) =>
    .done ⟨l.frontend, .diagnostic error.condition error.addinfo, none⟩
  | some (.ok _) =>
    let (f, b) := l.frontend.search b
    match a.search with
    | .error error => orRetry (retry { l with frontend := f } (some b) error a.checkProxy)
    | .ok hits => .done (found f hits (getRecords 0 (numberToPresent sr hits) b a.present))

/-- What is done with what `get_backend_from_databases` comes back with. -/
def proceed (sr : SearchRequest) (l : Loop) (a : Attempt) : Obtained → Attempted
  | .failed f b error proxyStep =>
    orRetry (retry { l with frontend := f, proxyStep := proxyStep } b error a.checkProxy)
  | .explained f res => .done ⟨f, res, none⟩
  | .connected f b proxyStep =>
    searchBackend yaz impl sr { l with frontend := f, proxyStep := proxyStep } b a

/-- From `next_proxy` on. -/
def attempt (sr : SearchRequest) (database : List Char) (l : Loop) (a : Attempt) : Attempted :=
  proceed yaz impl sr l a
    (getBackendFromDatabases yaz impl l.frontend database sr.query a l.proxyStep)

/-- What comes of a search in the end; it is not over when there is no attempt left. -/
def searchLoop (sr : SearchRequest) (database : List Char) :
    Loop → List Attempt → Option Attempted
  | _, [] => none
  | l, a :: attempts =>
    match attempt yaz impl sr database l a with
    | .again l => searchLoop sr database l attempts
    | out => some out

def handleSearch (f : Frontend) (sr : SearchRequest) (attempts : List Attempt) :
    Option Attempted :=
  match sr.databaseNames with
  | [database] => searchLoop yaz impl sr database ⟨f, 0, 0, 0⟩ attempts
  | _ => some (.done ⟨f, .diagnostic .tooManyDatabasesSpecified [], none⟩)

/-! ## `handle_present` -/

def presentDiagnostic (f : Frontend) (d : Diag) (presented : Option (Option Nat)) :
    Handled (PresentResponse NamePlusRecord) :=
  ⟨f, .diagnostic d.condition d.addinfo, presented⟩

def presentHandled (f : Frontend) (g : GetRecords) : Handled (PresentResponse NamePlusRecord) :=
  match g.error with
  | some error => presentDiagnostic f error g.presented
  | none =>
    match g.records with
    | none => ⟨f, .new, g.presented⟩
    | some l =>
      ⟨f, { (PresentResponse.new : PresentResponse NamePlusRecord) with
        records := some (.databaseOrSurDiagnostics ⟨l.length, l⟩)
        numberOfRecordsReturned := l.length }, g.presented⟩

/-- `none` when a null pointer is followed in an Explain document. -/
def handlePresent (f : Frontend) (pr : PresentRequest) (zoom : Presented) :
    Option (Handled (PresentResponse NamePlusRecord)) :=
  match f.backend with
  | none => some (presentDiagnostic f ⟨.specifiedResultSetDoesNotExist, []⟩ none)
  | some backend =>
    match pr.recordComposition with
    | some (.complex _) =>
      some (presentDiagnostic f ⟨.presentCompSpecParameterUnsupp, []⟩ none)
    | _ =>
      let start := pr.resultSetStartPoint - 1
      match backend with
      | .explain e => (getExplainRecords start pr.numberOfRecordsRequested e).map (presentHandled f)
      | .target b => some (presentHandled f (getRecords start pr.numberOfRecordsRequested b zoom))

end Zoom
end Metaproxy
