import Metaproxy.Z3950

/-!
# SRUtoZ3950.Impl

`sru` of `filter_sru_to_z3950.cpp`: the Z39.50 packages that an SRU request is made into, and the
response that is made of theirs. A decoded request is given; what the packages come back with is a
list of answers, and a request ends with `none` when it wants another one.

Every package has a copy of the session of the HTTP connection, so one that comes back closed does
not close the next.
-/

namespace Metaproxy
namespace SRUtoZ3950

open Z3950 (PresentRequest Records DiagRec)

/-! ## SRU -/

inductive Diagnostic where
  | systemTemporarilyUnavailable (addinfo : String)
  | authenticationError
  | mandatoryParameterNotSupplied (addinfo : String)
  | querySyntaxError (addinfo : String)
  | unsuppOperation (addinfo : String)
  | unsuppParameterValue (addinfo : String)
  | resultSetsUnsupp
  | firstRecordPositionOutOfRange
  | xpathRetrievalUnsupp
  | sortUnsupp
  | recordTemporarilyUnavailable
  | recordNotAvailableInThisSchema
  /-- `yaz_diag_bib1_to_srw`. -/
  | ofBib1 (condition : Bib1) (addinfo : List Char)
deriving DecidableEq, Repr

inductive Packing where
  | xml
  | string
deriving DecidableEq, Repr

structure SearchRetrieveRequest where
  query : Option String
  queryType : String
  database : Option String
  facetList : Option (List UInt8)
  startRecord : Option Int
  maximumRecords : Option Int
  recordXPath : Option String
  resultSetTTL : Option Int
  sorted : Bool
  recordPacking : Option String
  recordSchema : Option String

inductive Pdu where
  | explain
  | searchRetrieve (req : SearchRetrieveRequest)
  | scan
  | unknown

/-- A request that was decoded, with its extra arguments and what HTTP says of the client. -/
structure Request where
  username : Option String
  password : Option String
  /-- `x-target`, or empty. -/
  zurl : String
  /-- The arguments `x-client-`, encoded. -/
  dbargs : String
  /-- `X-Forwarded-For`. -/
  peerName : Option String
  diagnostics : List Diagnostic
  pdu : Pdu

/-- What a record is made into. -/
inductive RecordData where
  | surrogate (d : Diagnostic)
  | xml (schema : Option String) (data : List UInt8)
deriving DecidableEq, Repr

structure SruRecord where
  packing : Packing
  position : Int
  data : RecordData
deriving DecidableEq, Repr

structure SearchRetrieveResponse where
  diagnostics : List Diagnostic
  numberOfRecords : Option Int
  /-- What was written to `records`, and where. -/
  records : List (Int × SruRecord)
  numRecords : Int
  nextRecordPosition : Option Int
deriving DecidableEq, Repr

inductive Response where
  /-- HTTP 400. -/
  | bad
  | explain (diagnostics : List Diagnostic)
  | searchRetrieve (res : SearchRetrieveResponse)
  | scan (diagnostics : List Diagnostic)
deriving DecidableEq, Repr

/-! ## Z39.50 -/

inductive IdAuthentication where
  | open (s : String)
  | idPass (userId password : String)
deriving DecidableEq, Repr

inductive Query where
  | cql (query : String)
  | type1 (rpn : List UInt8)
  | type2 (query : String)
deriving DecidableEq, Repr

inductive NamePlusRecord where
  | surrogateDiagnostic (d : DiagRec)
  | databaseRecord (directReference : Option Oid) (descriptor : Option String) (data : List UInt8)
  | other
deriving DecidableEq, Repr

inductive Sent where
  | init (auth : Option IdAuthentication) (host : Option String) (clientIp : Option String)
  | search (databaseNames : List String) (facetList : Option (List UInt8)) (query : Query)
  | present (req : PresentRequest)
  /-- A package whose session is closed. -/
  | close
deriving DecidableEq, Repr

/-- A package that was sent, and whether it came back with its session closed. -/
structure Forwarded where
  sent : Sent
  closed : Bool
deriving DecidableEq, Repr

inductive Gdu where
  /-- Conditions and addinfos that `yaz_decode_init_diag` finds. -/
  | init (result : Bool) (diagnostics : List (Bib1 × List Char))
  | search (resultCount : Int) (records : Option (Records NamePlusRecord))
  | present (records : Option (Records NamePlusRecord))
  | other
deriving DecidableEq, Repr

structure Answer where
  closed : Bool
  response : Option Gdu
deriving DecidableEq, Repr

/-- The configuration, with what is called of YAZ: `cs_get_host_args` and the host before the
arguments, and `yaz_pqf_parse`. -/
structure Impl where
  confMaxRecs : Int
  hostArgs : String → Option String
  host : String → String
  pqfParse : String → Option (List UInt8)

/-! ## Init and search -/

def initAuth (r : Request) : Option IdAuthentication :=
  match r.username, r.password with
  | some username, none => some (.open username)
  | some username, some password => some (.idPass username password)
  | none, _ => none

def initSent (impl : Impl) (r : Request) : Sent :=
  .init (initAuth r) (if r.zurl = "" then none else some (impl.host r.zurl)) r.peerName

/-- The rest of `z3950_init_request`: whether the init was accepted, and the diagnostics if not. -/
def initAnswered (a : Answer) : Except (List Diagnostic) Unit :=
  match a.response with
  | some (.init true _) => .ok ()
  | some (.init false []) => .error [.authenticationError]
  | some (.init false diagnostics) => .error (diagnostics.map fun d => .ofBib1 d.1 d.2)
  | _ => .error [.systemTemporarilyUnavailable "sru_z3950: expected initResponse"]

def databaseNames (impl : Impl) (r : Request) (req : SearchRetrieveRequest) : List String :=
  match Util.databasesFromZurl impl.hostArgs r.zurl with
  | some dbs => dbs
  | none =>
    let db := req.database.getD "Default"
    [if r.dbargs = "" then db else db ++ "," ++ r.dbargs]

/-- `z3950_build_query`. -/
def buildQuery (impl : Impl) (req : SearchRetrieveRequest) (query : String) :
    Except Diagnostic Query :=
  if req.queryType = "cql" then .ok (.cql query)
  else if req.queryType = "pqf" then
    match impl.pqfParse query with
    | none => .error (.querySyntaxError "query")
    | some rpn => .ok (.type1 rpn)
  else if req.queryType = "ccl" then .ok (.type2 query)
  else .error (.mandatoryParameterNotSupplied "query")

/-- The hit count of a search that went well. A diagnostic of the target replaces those before. -/
def searchAnswered (diagnostics : List Diagnostic) (a : Answer) : Except (List Diagnostic) Int :=
  match a.response with
  | some (.search _ (some (.nonSurrogateDiagnostic d))) => .error [.ofBib1 d.condition d.addinfo]
  | some (.search resultCount _) => .ok resultCount
  | _ => .error (diagnostics ++ [.systemTemporarilyUnavailable ""])

/-! ## Present -/

structure Window where
  start : Int
  maxRecs : Int

def window (req : SearchRetrieveRequest) : Window where
  start := Util.toInt (req.startRecord.getD 1)
  maxRecs := Util.toInt (req.maximumRecords.getD 0)

/-- The diagnostics for which no record is asked for. -/
def windowDiagnostics (req : SearchRetrieveRequest) (numberOfRecords : Int) : List Diagnostic :=
  let w := window req
  (if req.recordXPath.isSome then [.xpathRetrievalUnsupp] else []) ++
  (if req.resultSetTTL.isSome then [.resultSetsUnsupp] else []) ++
  (if req.sorted then [.sortUnsupp] else []) ++
  (if w.start < 0 ∨ w.start > numberOfRecords then [.firstRecordPositionOutOfRange] else []) ++
  (if w.maxRecs < 0 then [.unsuppParameterValue "maximumRecords"] else [])

/-- `max_recs` in front of the loop. -/
def cutRecs (impl : Impl) (w : Window) (numberOfRecords : Int) : Int :=
  let maxRecs :=
    if impl.confMaxRecs > 0 ∧ w.maxRecs > impl.confMaxRecs then impl.confMaxRecs else w.maxRecs
  if maxRecs > numberOfRecords - w.start then Util.toInt (numberOfRecords - w.start + 1)
  else maxRecs

def presentRequest (req : SearchRetrieveRequest) (start maxRecs num : Int) : PresentRequest where
  resultSetId := "default"
  resultSetStartPoint := Util.toInt (start + num)
  numberOfRecordsRequested := maxRecs - num
  preferredRecordSyntax := some Oid.xml
  recordComposition := req.recordSchema.map fun schema => .simple (.generic schema.toList)

def recordPacking (req : SearchRetrieveRequest) : Packing :=
  if (req.recordPacking.bind (·.toList.head?)) = some 's' then .string else .xml

def recordData (req : SearchRetrieveRequest) : NamePlusRecord → RecordData
  | .surrogateDiagnostic (.defaultFormat d) => .surrogate (.ofBib1 d.condition d.addinfo)
  | .surrogateDiagnostic (.externallyDefined _) => .surrogate .recordTemporarilyUnavailable
  | .databaseRecord directReference descriptor data =>
    if directReference = some Oid.xml then .xml (descriptor.or req.recordSchema) data
    else .surrogate .recordNotAvailableInThisSchema
  | .other => .surrogate .recordNotAvailableInThisSchema

/-- What a response adds to `records` behind `num` records. -/
def newRecords (req : SearchRetrieveRequest) (start num : Int) (records : List NamePlusRecord) :
    List (Int × SruRecord) :=
  records.zipIdx.map fun r => ((r.2 : Int) + num,
    ⟨recordPacking req, Util.toInt ((r.2 : Int) + Util.toInt (start + num)), recordData req r.1⟩)

/-- How the loop ends. -/
inductive Presented where
  | failed (d : Diagnostic)
  /-- A diagnostic of the target. -/
  | diagnosed (d : Diagnostic)
  | done (num : Int)

structure Loop where
  forwarded : List Forwarded
  records : List (Int × SruRecord)
  presented : Presented

def Loop.after (l : Loop) (f : Forwarded) (records : List (Int × SruRecord)) : Loop :=
  { l with forwarded := f :: l.forwarded, records := records ++ l.records }

/-- `num` only leaves the range of an `int` when it is beyond `maxRecs`. -/
def presentLoop (req : SearchRetrieveRequest) (start maxRecs : Int) :
    List Answer → (num : Int) → Option Loop
  | [], num => if num < maxRecs then none else some ⟨[], [], .done num⟩
  | a :: answers, num =>
    if num < maxRecs then
      let f : Forwarded := ⟨.present (presentRequest req start maxRecs num), a.closed⟩
      match a.response with
      | some (.present records) =>
        match records with
        | some (.nonSurrogateDiagnostic d) =>
          some ⟨[f], [], .diagnosed (.ofBib1 d.condition d.addinfo)⟩
        | some (.databaseOrSurDiagnostics nprl) =>
          (presentLoop req start maxRecs answers (num + nprl.numRecords)).map fun l =>
            l.after f (newRecords req start num nprl.items)
        | _ => some ⟨[f], [], .done num⟩
      | _ => some ⟨[f], [], .failed (.systemTemporarilyUnavailable "")⟩
    else some ⟨[], [], .done num⟩

/-- What is left in the response when the loop has ended. -/
def finished (w : Window) (res : SearchRetrieveResponse) (numberOfRecords : Int) (l : Loop) :
    SearchRetrieveResponse :=
  let res := { res with records := l.records }
  match l.presented with
  | .failed d => { res with diagnostics := res.diagnostics ++ [d] }
  | .diagnosed d => { res with diagnostics := [d] }
  | .done num =>
    { res with
      numRecords := num
      nextRecordPosition :=
        if Util.toInt (w.start - 1 + num) < numberOfRecords then some (Util.toInt (w.start + num))
        else none }

/-- `z3950_present_request`; `res` has the hit count. -/
def presentRecords (impl : Impl) (req : SearchRetrieveRequest) (res : SearchRetrieveResponse)
    (numberOfRecords : Int) (answers : List Answer) :
    Option (List Forwarded × SearchRetrieveResponse) :=
  let w := window req
  if w.maxRecs = 0 then some ([], res)
  else
    let diagnostics := windowDiagnostics req numberOfRecords
    if diagnostics ≠ [] then some ([], { res with diagnostics := res.diagnostics ++ diagnostics })
    else
      (presentLoop req w.start (cutRecs impl w numberOfRecords) answers 0).map fun l =>
        (l.forwarded, finished w res numberOfRecords l)

/-! ## `sru` -/

def SearchRetrieveResponse.new (diagnostics : List Diagnostic) : SearchRetrieveResponse :=
  ⟨diagnostics, none, [], 0, none⟩

/-- Between init and close. -/
def searchAndPresent (impl : Impl) (r : Request) (req : SearchRetrieveRequest) (query : String)
    (answers : List Answer) : Option (List Forwarded × SearchRetrieveResponse) :=
  match buildQuery impl req query with
  | .error d => some ([], .new (r.diagnostics ++ [d]))
  | .ok q =>
    match answers with
    | [] => none
    | a :: answers =>
      let f : Forwarded := ⟨.search (databaseNames impl r req) req.facetList q, a.closed⟩
      match searchAnswered r.diagnostics a with
      | .error diagnostics => some ([f], .new diagnostics)
      | .ok resultCount =>
        let res := { SearchRetrieveResponse.new r.diagnostics with
          numberOfRecords := some resultCount }
        if resultCount = 0 then some ([f], res)
        else (presentRecords impl req res resultCount answers).map fun p => (f :: p.1, p.2)

/-- The package of `z3950_close_request` has its session closed. -/
def closing : Forwarded := ⟨.close, true⟩

def searchRetrieve (impl : Impl) (r : Request) (req : SearchRetrieveRequest)
    (answers : List Answer) : Option (List Forwarded × SearchRetrieveResponse) :=
  match req.query with
  | none =>
    some ([], .new (r.diagnostics ++
      [.mandatoryParameterNotSupplied "query", .querySyntaxError "CQL query is empty"]))
  | some query =>
    match answers with
    | [] => none
    | a :: answers =>
      let f : Forwarded := ⟨initSent impl r, a.closed⟩
      match initAnswered a with
      | .error diagnostics => some ([f], .new (r.diagnostics ++ diagnostics))
      | .ok () =>
        (searchAndPresent impl r req query answers).map fun p => (f :: p.1 ++ [closing], p.2)

/-- `sru`; `none` for a request that cannot be decoded, with `soap` telling whether it was SOAP. -/
def sru (impl : Impl) (soap : Bool) (request : Option Request) (answers : List Answer) :
    Option (List Forwarded × Response) :=
  match request with
  | none => some ([], if soap then .explain [] else .bad)
  | some r =>
    match r.pdu with
    | .explain => some ([], .explain r.diagnostics)
    | .searchRetrieve req =>
      (searchRetrieve impl r req answers).map fun p => (p.1, .searchRetrieve p.2)
    | .scan => some ([], .scan (r.diagnostics ++ [.unsuppOperation "scan"]))
    | .unknown => some ([], .explain r.diagnostics)

end SRUtoZ3950
end Metaproxy
