import Mathlib.Data.Option.Basic

/-!
# Log

`filter_log.cpp`: the access line of a request and its response. Both are unions with tags, read by
the member of the tag or not at all; a read of another member, of an absent response or of an element
that a list does not have is a fault.

`log1lineZGDU_ok_iff`: when a line is written without a fault.
-/

namespace Metaproxy
namespace Log

inductive Fault where
  | wrongMember
  | absentResponse
  | absentDiagnostic
deriving DecidableEq, Repr

abbrev Oid := List Nat

/-! ## What is read of the messages

Fields that need not be there are options, and so are those that are tested before they are read.
Lists are arrays with their lengths. -/

inductive Addinfo where
  | v2Addinfo (s : Option String)
  | v3Addinfo (s : Option String)
deriving DecidableEq, Repr

structure DefaultDiagFormat where
  condition : Option Int
  addinfo : Addinfo
deriving DecidableEq, Repr

inductive DiagRec where
  | defaultFormat (e : DefaultDiagFormat)
  | externallyDefined
deriving DecidableEq, Repr

inductive DiagnosticFormatS where
  | defaultDiagRec (e : DefaultDiagFormat)
  | explicitDiagnostic
deriving DecidableEq, Repr

mutual

inductive External where
  | userInfo1 (list : List OtherInformationUnit)
  | diag1 (elements : List DiagnosticFormatS)
  | other

inductive OtherInformationUnit where
  | externallyDefinedInfo (info : Option External)
  | other

end

structure InitRequest where
  implementationId : Option String
  implementationName : Option String
  implementationVersion : Option String

structure InitResponse where
  result : Option Bool
  userInformationField : Option External

/-- `query` is printed by `yaz_query_to_wrbuf`. -/
structure SearchRequest where
  databaseNames : List String
  resultSetName : String
  preferredRecordSyntax : Option Oid
  query : List UInt8

inductive Records where
  | dbosd
  | nsd (nonSurrogateDiagnostic : DefaultDiagFormat)
  | multipleNSD (diagRecs : List DiagRec)

structure SearchResponse where
  resultCount : Int
  numberOfRecordsReturned : Option Int
  records : Option Records

structure PresentRequest where
  resultSetId : String
  resultSetStartPoint : Int
  numberOfRecordsRequested : Int
  preferredRecordSyntax : Option Oid

structure PresentResponse where
  records : Option Records

/-- The last two are printed by `yaz_scan_to_wrbuf`. -/
structure ScanRequest where
  databaseNames : List String
  preferredPositionInResponse : Option Int
  numberOfTermsRequested : Int
  termListAndStartPoint : List UInt8
  attributeSet : Option Oid

structure ScanResponse where
  scanStatus : Option Int
  numberOfEntriesReturned : Option Int
  stepSize : Option Int

structure SortRequest where
  inputResultSetNames : List String
  sortedResultSetName : String

structure SortResponse where
  sortStatus : Int
  diagnostics : Option (List DiagRec)

structure ExtendedServicesResponse where
  operationStatus : Int
  diagnostics : Option (List DiagRec)

structure DuplicateDetectionResponse where
  status : Int
  diagnostics : Option (List DiagRec)

/-- `Z_APDU`, without the contents of those that are never read. -/
inductive Apdu where
  | initRequest (req : InitRequest)
  | initResponse (res : InitResponse)
  | searchRequest (req : SearchRequest)
  | searchResponse (res : SearchResponse)
  | presentRequest (req : PresentRequest)
  | presentResponse (res : PresentResponse)
  | deleteResultSetRequest
  | deleteResultSetResponse
  | accessControlRequest
  | accessControlResponse
  | resourceControlRequest
  | resourceControlResponse
  | triggerResourceControlRequest
  | resourceReportRequest
  | resourceReportResponse
  | scanRequest (req : ScanRequest)
  | scanResponse (res : ScanResponse)
  | sortRequest (req : SortRequest)
  | sortResponse (res : SortResponse)
  | segmentRequest
  | extendedServicesRequest
  | extendedServicesResponse (res : ExtendedServicesResponse)
  | close
  | duplicateDetectionRequest
  | duplicateDetectionResponse (res : DuplicateDetectionResponse)

inductive Tag where
  | initRequest
  | initResponse
  | searchRequest
  | searchResponse
  | presentRequest
  | presentResponse
  | deleteResultSetRequest
  | deleteResultSetResponse
  | accessControlRequest
  | accessControlResponse
  | resourceControlRequest
  | resourceControlResponse
  | triggerResourceControlRequest
  | resourceReportRequest
  | resourceReportResponse
  | scanRequest
  | scanResponse
  | sortRequest
  | sortResponse
  | segmentRequest
  | extendedServicesRequest
  | extendedServicesResponse
  | close
  | duplicateDetectionRequest
  | duplicateDetectionResponse
deriving DecidableEq, Repr

namespace Apdu

def which : Apdu → Tag
  | initRequest _ => .initRequest
  | initResponse _ => .initResponse
  | searchRequest _ => .searchRequest
  | searchResponse _ => .searchResponse
  | presentRequest _ => .presentRequest
  | presentResponse _ => .presentResponse
  | deleteResultSetRequest => .deleteResultSetRequest
  | deleteResultSetResponse => .deleteResultSetResponse
  | accessControlRequest => .accessControlRequest
  | accessControlResponse => .accessControlResponse
  | resourceControlRequest => .resourceControlRequest
  | resourceControlResponse => .resourceControlResponse
  | triggerResourceControlRequest => .triggerResourceControlRequest
  | resourceReportRequest => .resourceReportRequest
  | resourceReportResponse => .resourceReportResponse
  | scanRequest _ => .scanRequest
  | scanResponse _ => .scanResponse
  | sortRequest _ => .sortRequest
  | sortResponse _ => .sortResponse
  | segmentRequest => .segmentRequest
  | extendedServicesRequest => .extendedServicesRequest
  | extendedServicesResponse _ => .extendedServicesResponse
  | close => .close
  | duplicateDetectionRequest => .duplicateDetectionRequest
  | duplicateDetectionResponse _ => .duplicateDetectionResponse

/-! The members of the union. -/

def uInitRequest : Apdu → Except Fault InitRequest
  | initRequest req => .ok req
  | _ => .error .wrongMember

def uInitResponse : Apdu → Except Fault InitResponse
  | initResponse res => .ok res
  | _ => .error .wrongMember

def uSearchRequest : Apdu → Except Fault SearchRequest
  | searchRequest req => .ok req
  | _ => .error .wrongMember

def uSearchResponse : Apdu → Except Fault SearchResponse
  | searchResponse res => .ok res
  | _ => .error .wrongMember

def uPresentRequest : Apdu → Except Fault PresentRequest
  | presentRequest req => .ok req
  | _ => .error .wrongMember

def uPresentResponse : Apdu → Except Fault PresentResponse
  | presentResponse res => .ok res
  | _ => .error .wrongMember

def uScanRequest : Apdu → Except Fault ScanRequest
  | scanRequest req => .ok req
  | _ => .error .wrongMember

def uScanResponse : Apdu → Except Fault ScanResponse
  | scanResponse res => .ok res
  | _ => .error .wrongMember

def uSortRequest : Apdu → Except Fault SortRequest
  | sortRequest req => .ok req
  | _ => .error .wrongMember

def uSortResponse : Apdu → Except Fault SortResponse
  | sortResponse res => .ok res
  | _ => .error .wrongMember

def uExtendedServicesResponse : Apdu → Except Fault ExtendedServicesResponse
  | extendedServicesResponse res => .ok res
  | _ => .error .wrongMember

def uDuplicateDetectionResponse : Apdu → Except Fault DuplicateDetectionResponse
  | duplicateDetectionResponse res => .ok res
  | _ => .error .wrongMember

end Apdu

/-- The numbers of the tags, and what prints values. -/
structure Env where
  number : Tag → Int
  oidToString : Oid → String
  queryToWrbuf : List UInt8 → String
  scanToWrbuf : List UInt8 → Option Oid → String

/-! ## The parts of a line -/

def logDefaultDiagFormat (e : DefaultDiagFormat) : String :=
  (match e.condition with
    | some condition => toString condition ++ " "
    | none => "?? ") ++
  match e.addinfo with
  | .v2Addinfo (some s) => "\"" ++ s ++ "\""
  | .v3Addinfo (some s) => "\"" ++ s ++ "\""
  | _ => "-"

/-- Of the first one only. -/
def logDiagRecs : List DiagRec → Except Fault String
  | [] => .error .absentDiagnostic
  | .defaultFormat e :: _ => .ok (logDefaultDiagFormat e)
  | .externallyDefined :: _ => .ok "(diag not in default format?)"

def logSyntax (env : Env) (syntx : Option Oid) : String :=
  match syntx with
  | some oid => env.oidToString oid
  | none => "-"

/-- The diagnostics of sort, extended services and duplicate detection. -/
def logDiagnostics (diagnostics : Option (List DiagRec)) : Except Fault String :=
  match diagnostics with
  | some (diag :: diags) => logDiagRecs (diag :: diags)
  | _ => .ok "-"

/-- `ok` is what is written without diagnostics. -/
def logRecords (ok : String) (records : Option Records) : Except Fault String :=
  match records with
  | none => .ok ok
  | some .dbosd => .ok ok
  | some (.nsd e) => .ok ("ERROR " ++ logDefaultDiagFormat e)
  | some (.multipleNSD diags) => (logDiagRecs diags).map ("ERROR " ++ ·)

/-- The diagnostic in the user information of an init response. -/
def initDiagnostic (uif : Option External) : Option DefaultDiagFormat :=
  match uif with
  | some (.userInfo1 (.externallyDefinedInfo (some (.diag1 (.defaultDiagRec e :: _))) :: _)) =>
    some e
  | _ => none

/-- A line that needs a response with the tag `tag`. -/
def respond (env : Env) (zRes : Option Apdu) (tag : Tag) (body : Apdu → Except Fault String) :
    Except Fault String :=
  match zRes with
  | none => .ok "?"
  | some res =>
    if res.which ≠ tag then .ok ("? response=" ++ toString (env.number res.which)) else body res

def logInit (zReq zRes : Apdu) : Except Fault String := do
  let req ← zReq.uInitRequest
  let res ← zRes.uInitResponse
  let outcome :=
    if res.result = some true then "OK -"
    else "ERROR " ++ ((initDiagnostic res.userInformationField).map logDefaultDiagFormat).getD "-"
  return outcome ++ " ID:" ++ req.implementationId.getD "-" ++
    " Name:" ++ req.implementationName.getD "-" ++
    " Version:" ++ req.implementationVersion.getD "-"

def logSearch (env : Env) (zReq zRes : Apdu) : Except Fault String := do
  let req ← zReq.uSearchRequest
  let res ← zRes.uSearchResponse
  let records ← logRecords ("OK " ++ toString res.resultCount ++ " " ++ req.resultSetName)
    res.records
  return "+".intercalate req.databaseNames ++ " " ++ records ++ " " ++
    logSyntax env req.preferredRecordSyntax ++
    " 1+" ++ toString (res.numberOfRecordsReturned.getD 0) ++ " " ++ env.queryToWrbuf req.query

def logPresent (env : Env) (zReq zRes : Apdu) : Except Fault String := do
  let req ← zReq.uPresentRequest
  let res ← zRes.uPresentResponse
  let records ← logRecords "OK" res.records
  return records ++ " " ++ logSyntax env req.preferredRecordSyntax ++ " " ++ req.resultSetId ++
    " " ++ toString req.resultSetStartPoint ++ "+" ++ toString req.numberOfRecordsRequested ++ " "

def logScan (env : Env) (zReq zRes : Apdu) : Except Fault String := do
  let req ← zReq.uScanRequest
  let res ← zRes.uScanResponse
  let status :=
    match res.scanStatus with
    | none => "OK"
    | some s => if s = 0 then "OK" else if s = 6 then "ERROR" else "PARTIAL" ++ toString s
  return "+".intercalate req.databaseNames ++ " " ++ status ++
    " " ++ toString (res.numberOfEntriesReturned.getD 0) ++
    " " ++ toString (req.preferredPositionInResponse.getD 1) ++
    "+" ++ toString req.numberOfTermsRequested ++
    "+" ++ toString (res.stepSize.getD 1) ++ " " ++
    env.scanToWrbuf req.termListAndStartPoint req.attributeSet

/-- The request is read out of the response. -/
def logSort (zRes : Apdu) : Except Fault String := do
  let res ← zRes.uSortResponse
  let req ← zRes.uSortRequest
  let status :=
    if res.sortStatus = 0 then "OK"
    else if res.sortStatus = 1 then "PARTIAL"
    else if res.sortStatus = 2 then "ERROR"
    else ""
  let diagnostics ← logDiagnostics res.diagnostics
  return status ++ " " ++ diagnostics ++ " (" ++ "+".intercalate req.inputResultSetNames ++ ")->" ++
    req.sortedResultSetName ++ " "

def logExtendedServices (zRes : Apdu) : Except Fault String := do
  let res ← zRes.uExtendedServicesResponse
  let status :=
    if res.operationStatus = 1 then "DONE"
    else if res.operationStatus = 2 then "ACCEPTED"
    else if res.operationStatus = 3 then "ERROR"
    else toString res.operationStatus
  let diagnostics ← logDiagnostics res.diagnostics
  return status ++ " " ++ diagnostics

def logDuplicateDetection (zRes : Apdu) : Except Fault String := do
  let res ← zRes.uDuplicateDetectionResponse
  let diagnostics ← logDiagnostics res.diagnostics
  return (if res.status ≠ 0 then "OK" else "ERROR") ++ " " ++ diagnostics

/-! ## The line -/

def log1lineZAPDU (env : Env) (zReq : Apdu) (zRes : Option Apdu) : Except Fault String :=
  match zReq.which with
  | .initRequest => (respond env zRes .initResponse (logInit zReq)).map ("Init " ++ ·)
  | .searchRequest => (respond env zRes .searchResponse (logSearch env zReq)).map ("Search " ++ ·)
  | .presentRequest =>
    (respond env zRes .presentResponse (logPresent env zReq)).map ("Present " ++ ·)
  | .deleteResultSetRequest => .ok "deleteResultSet "
  | .accessControlRequest => .ok "accessControl "
  | .resourceControlRequest => .ok "resourceControl "
  | .triggerResourceControlRequest => .ok "triggerResourceControlRequest"
  | .resourceReportRequest => .ok "resourceReport "
  | .scanRequest => (respond env zRes .scanResponse (logScan env zReq)).map ("Scan " ++ ·)
  | .sortRequest => (respond env zRes .sortResponse logSort).map ("sort " ++ ·)
  | .segmentRequest => .ok "segmentRequest"
  | .extendedServicesRequest =>
    (respond env zRes .extendedServicesResponse logExtendedServices).map ("extendedServices " ++ ·)
  | .close => .ok "close"
  | .duplicateDetectionRequest =>
    (respond env zRes .duplicateDetectionResponse logDuplicateDetection).map
      ("duplicateDetention " ++ ·)
  | tag =>
    match zRes with
    | none => .error .absentResponse
    | some res =>
      .ok ("REQ=" ++ toString (env.number tag) ++ " RES=" ++ toString (env.number res.which))

structure HttpRequest where
  method : String
  path : String
  version : String

structure HttpResponse where
  code : Int
  contentLen : Int

def log1lineZHTTP (req : HttpRequest) (res : Option HttpResponse) : String :=
  req.method ++ " " ++ req.path ++ " HTTP/" ++ req.version ++
    match res with
    | some res => " " ++ toString res.code ++ " " ++ toString res.contentLen
    | none => " ?"

inductive Gdu where
  | z3950 (apdu : Apdu)
  | httpRequest (req : HttpRequest)
  | httpResponse (res : HttpResponse)

/-- The response as far as it is one of the same protocol. -/
def Gdu.apdu? : Option Gdu → Option Apdu
  | some (.z3950 apdu) => some apdu
  | _ => none

def Gdu.http? : Option Gdu → Option HttpResponse
  | some (.httpResponse res) => some res
  | _ => none

def log1lineZGDU (env : Env) (gduReq gduRes : Option Gdu) : Except Fault String :=
  match gduReq with
  | some (.z3950 apdu) => log1lineZAPDU env apdu (Gdu.apdu? gduRes)
  | some (.httpRequest req) => .ok (log1lineZHTTP req (Gdu.http? gduRes))
  | _ => .ok ""

/-! ## Lines without a fault -/

def Ok {α : Type} (x : Except Fault α) : Prop := ∃ a, x = .ok a

theorem ok_ok {α : Type} (a : α) : Ok (.ok a) := ⟨a, rfl⟩

theorem not_ok_error {α : Type} (e : Fault) : ¬ Ok (.error e : Except Fault α) := by
  rintro ⟨a, h⟩
  cases h

theorem ok_map_iff {α β : Type} {f : α → β} {x : Except Fault α} : Ok (x.map f) ↔ Ok x := by
  cases x with
  | error e => exact iff_of_false (not_ok_error e) (not_ok_error e)
  | ok a => exact iff_of_true (ok_ok _) (ok_ok a)

theorem ok_bind_iff {α β : Type} {f : α → Except Fault β} {x : Except Fault α}
    (hf : ∀ a, Ok (f a)) : Ok (x >>= f) ↔ Ok x := by
  cases x with
  | error e => exact iff_of_false (not_ok_error e) (not_ok_error e)
  | ok a => exact iff_of_true (hf a) (ok_ok a)

/-- The diagnostics that a response has instead of records. -/
def diagnostics? : Apdu → Option (List DiagRec)
  | .searchResponse ⟨_, _, some (.multipleNSD diags)⟩ => some diags
  | .presentResponse ⟨some (.multipleNSD diags)⟩ => some diags
  | _ => none

/-- The tags that the switch leaves to its default. -/
def Tag.isOther : Tag → Bool
  | .initRequest | .searchRequest | .presentRequest | .deleteResultSetRequest
  | .accessControlRequest | .resourceControlRequest | .triggerResourceControlRequest
  | .resourceReportRequest | .scanRequest | .sortRequest | .segmentRequest
  | .extendedServicesRequest | .close | .duplicateDetectionRequest => false
  | _ => true

/-- Sort is not answered, the default has a response, and diagnostics that are to be read are there
in a search or present response. -/
structure Readable (zReq : Apdu) (zRes : Option Apdu) : Prop where
  sort : zReq.which = .sortRequest → ∀ res, zRes = some res → res.which ≠ .sortResponse
  response : zReq.which.isOther = true → zRes ≠ none
  diagnostics : ∀ res, zRes = some res →
    (zReq.which = .searchRequest ∧ res.which = .searchResponse) ∨
      (zReq.which = .presentRequest ∧ res.which = .presentResponse) →
    diagnostics? res ≠ some []

theorem respond_ok_iff {env : Env} {zRes : Option Apdu} {tag : Tag}
    {body : Apdu → Except Fault String} :
    Ok (respond env zRes tag body) ↔ ∀ res, zRes = some res → res.which = tag → Ok (body res) := by
  cases zRes with
  | none => exact iff_of_true (ok_ok _) fun res h => by cases h
  | some res =>
    rw [respond]
    by_cases htag : res.which = tag
    · rw [if_neg (not_not_intro htag)]
      constructor
      · rintro h res' heq -
        cases heq
        exact h
      · exact fun h => h res rfl htag
    · rw [if_pos htag]
      refine iff_of_true (ok_ok _) fun res' heq hres' => ?_
      cases heq
      exact absurd hres' htag

theorem logDiagRecs_ok_iff {diags : List DiagRec} : Ok (logDiagRecs diags) ↔ diags ≠ [] := by
  cases diags with
  | nil => exact iff_of_false (not_ok_error _) (fun h => h rfl)
  | cons diag diags => cases diag <;> exact iff_of_true (ok_ok _) (List.cons_ne_nil _ _)

theorem logDiagnostics_ok (diagnostics : Option (List DiagRec)) :
    Ok (logDiagnostics diagnostics) := by
  cases diagnostics with
  | none => exact ok_ok _
  | some diags =>
    cases diags with
    | nil => exact ok_ok _
    | cons diag diags => exact logDiagRecs_ok_iff.mpr (List.cons_ne_nil _ _)

theorem logRecords_ok_iff {ok : String} {records : Option Records} :
    Ok (logRecords ok records) ↔ records ≠ some (.multipleNSD []) := by
  cases records with
  | none => exact iff_of_true (ok_ok _) (by simp)
  | some records =>
    cases records with
    | dbosd => exact iff_of_true (ok_ok _) (by simp)
    | nsd e => exact iff_of_true (ok_ok _) (by simp)
    | multipleNSD diags =>
      rw [logRecords, ok_map_iff, logDiagRecs_ok_iff]
      simp

theorem logInit_ok (req : InitRequest) {res : Apdu} (h : res.which = .initResponse) :
    Ok (logInit (.initRequest req) res) := by
  cases res with
  | initResponse res => exact ok_ok _
  | _ => cases h

theorem logSearch_ok_iff {env : Env} (req : SearchRequest) {res : Apdu}
    (h : res.which = .searchResponse) :
    Ok (logSearch env (.searchRequest req) res) ↔ diagnostics? res ≠ some [] := by
  cases res with
  | searchResponse res =>
    have hrecords : diagnostics? (.searchResponse res) ≠ some [] ↔
        res.records ≠ some (.multipleNSD []) := by
      obtain ⟨count, returned, records⟩ := res
      rcases records with _ | (_ | e | diags) <;> simp [diagnostics?]
    rw [hrecords, ← logRecords_ok_iff]
    exact ok_bind_iff fun records => ok_ok _
  | _ => cases h

theorem logPresent_ok_iff {env : Env} (req : PresentRequest) {res : Apdu}
    (h : res.which = .presentResponse) :
    Ok (logPresent env (.presentRequest req) res) ↔ diagnostics? res ≠ some [] := by
  cases res with
  | presentResponse res =>
    have hrecords : diagnostics? (.presentResponse res) ≠ some [] ↔
        res.records ≠ some (.multipleNSD []) := by
      obtain ⟨records⟩ := res
      rcases records with _ | (_ | e | diags) <;> simp [diagnostics?]
    rw [hrecords, ← logRecords_ok_iff]
    exact ok_bind_iff fun records => ok_ok _
  | _ => cases h

theorem logScan_ok {env : Env} (req : ScanRequest) {res : Apdu} (h : res.which = .scanResponse) :
    Ok (logScan env (.scanRequest req) res) := by
  cases res with
  | scanResponse res => exact ok_ok _
  | _ => cases h

/-- The response that has been found to be a sort response is read as a sort request. -/
theorem not_logSort_ok (res : Apdu) : ¬ Ok (logSort res) := by
  cases res with
  | sortResponse res => exact not_ok_error _
  | _ => exact not_ok_error _

theorem logExtendedServices_ok {res : Apdu} (h : res.which = .extendedServicesResponse) :
    Ok (logExtendedServices res) := by
  cases res with
  | extendedServicesResponse res =>
    exact (ok_bind_iff fun diagnostics => ok_ok _).mpr (logDiagnostics_ok res.diagnostics)
  | _ => cases h

theorem logDuplicateDetection_ok {res : Apdu} (h : res.which = .duplicateDetectionResponse) :
    Ok (logDuplicateDetection res) := by
  cases res with
  | duplicateDetectionResponse res =>
    exact (ok_bind_iff fun diagnostics => ok_ok _).mpr (logDiagnostics_ok res.diagnostics)
  | _ => cases h

/-- Neither of the three that matter nor left to the default. -/
def Tag.isSafe (tag : Tag) : Bool :=
  !tag.isOther && tag ≠ .sortRequest && tag ≠ .searchRequest && tag ≠ .presentRequest

theorem readable_of_isSafe {zReq : Apdu} (zRes : Option Apdu) (h : zReq.which.isSafe = true) :
    Readable zReq zRes := by
  simp only [Tag.isSafe, Bool.and_eq_true, Bool.not_eq_true', decide_eq_true_eq] at h
  obtain ⟨⟨⟨hother, hsort⟩, hsearch⟩, hpresent⟩ := h
  refine ⟨fun h => absurd h hsort, fun h => ?_, ?_⟩
  · rw [hother] at h
    cases h
  · rintro res - (⟨h, -⟩ | ⟨h, -⟩)
    · exact absurd h hsearch
    · exact absurd h hpresent

theorem readable_searchRequest_iff {req : SearchRequest} {zRes : Option Apdu} :
    Readable (.searchRequest req) zRes ↔
      ∀ res, zRes = some res → res.which = .searchResponse → diagnostics? res ≠ some [] := by
  constructor
  · exact fun h res hres hwhich => h.diagnostics res hres (.inl ⟨rfl, hwhich⟩)
  · intro h
    refine ⟨fun hsort => (by cases hsort), fun hother => (by cases hother), ?_⟩
    rintro res hres (⟨-, hwhich⟩ | ⟨hpresent, -⟩)
    · exact h res hres hwhich
    · cases hpresent

theorem readable_presentRequest_iff {req : PresentRequest} {zRes : Option Apdu} :
    Readable (.presentRequest req) zRes ↔
      ∀ res, zRes = some res → res.which = .presentResponse → diagnostics? res ≠ some [] := by
  constructor
  · exact fun h res hres hwhich => h.diagnostics res hres (.inr ⟨rfl, hwhich⟩)
  · intro h
    refine ⟨fun hsort => (by cases hsort), fun hother => (by cases hother), ?_⟩
    rintro res hres (⟨hsearch, -⟩ | ⟨-, hwhich⟩)
    · cases hsearch
    · exact h res hres hwhich

theorem readable_sortRequest_iff {req : SortRequest} {zRes : Option Apdu} :
    Readable (.sortRequest req) zRes ↔ ∀ res, zRes = some res → res.which ≠ .sortResponse := by
  constructor
  · exact fun h => h.sort rfl
  · intro h
    refine ⟨fun _ => h, fun hother => (by cases hother), ?_⟩
    rintro res - (⟨hsearch, -⟩ | ⟨hpresent, -⟩)
    · cases hsearch
    · cases hpresent

theorem readable_other_iff {zReq : Apdu} {zRes : Option Apdu} (h : zReq.which.isOther = true) :
    Readable zReq zRes ↔ zRes ≠ none := by
  constructor
  · exact fun hreadable => hreadable.response h
  · intro hres
    refine ⟨?_, fun _ => hres, ?_⟩
    · intro hsort
      rw [hsort] at h
      cases h
    · rintro res - (⟨hsearch, -⟩ | ⟨hpresent, -⟩)
      · rw [hsearch] at h
        cases h
      · rw [hpresent] at h
        cases h

theorem log1lineZAPDU_ok_iff (env : Env) (zReq : Apdu) (zRes : Option Apdu) :
    Ok (log1lineZAPDU env zReq zRes) ↔ Readable zReq zRes := by
  cases zReq with
  | initRequest req =>
    exact iff_of_true (ok_map_iff.mpr (respond_ok_iff.mpr fun res _ h => logInit_ok req h))
      (readable_of_isSafe zRes rfl)
  | searchRequest req =>
    refine ok_map_iff.trans (respond_ok_iff.trans ?_)
    rw [readable_searchRequest_iff]
    exact forall₃_congr fun res _ h => logSearch_ok_iff req h
  | presentRequest req =>
    refine ok_map_iff.trans (respond_ok_iff.trans ?_)
    rw [readable_presentRequest_iff]
    exact forall₃_congr fun res _ h => logPresent_ok_iff req h
  | scanRequest req =>
    exact iff_of_true (ok_map_iff.mpr (respond_ok_iff.mpr fun res _ h => logScan_ok req h))
      (readable_of_isSafe zRes rfl)
  | sortRequest req =>
    refine ok_map_iff.trans (respond_ok_iff.trans ?_)
    rw [readable_sortRequest_iff]
    exact forall₃_congr fun res _ h => iff_of_false (not_logSort_ok res) id
  | extendedServicesRequest =>
    exact iff_of_true
      (ok_map_iff.mpr (respond_ok_iff.mpr fun res _ h => logExtendedServices_ok h))
      (readable_of_isSafe zRes rfl)
  | duplicateDetectionRequest =>
    exact iff_of_true
      (ok_map_iff.mpr (respond_ok_iff.mpr fun res _ h => logDuplicateDetection_ok h))
      (readable_of_isSafe zRes rfl)
  | deleteResultSetRequest | accessControlRequest | resourceControlRequest
  | triggerResourceControlRequest | resourceReportRequest | segmentRequest | close =>
    exact iff_of_true (ok_ok _) (readable_of_isSafe zRes rfl)
  | _ =>
    rw [readable_other_iff rfl]
    cases zRes with
    | none => exact iff_of_false (not_ok_error _) (fun h => h rfl)
    | some res => exact iff_of_true (ok_ok _) (by simp)

/-- A line is written for a Z39.50 request exactly when all that it reads is there. -/
theorem log1lineZGDU_ok_iff (env : Env) (zReq : Apdu) (gduRes : Option Gdu) :
    Ok (log1lineZGDU env (some (.z3950 zReq)) gduRes) ↔ Readable zReq (Gdu.apdu? gduRes) :=
  log1lineZAPDU_ok_iff env zReq (Gdu.apdu? gduRes)

def plainEnv : Env where
  number _ := 0
  oidToString _ := ""
  queryToWrbuf _ := ""
  scanToWrbuf _ _ := ""

/-- A sort that succeeded. -/
theorem not_ok_sort :
    ¬ Ok (log1lineZGDU plainEnv (some (.z3950 (.sortRequest ⟨["1"], "2"⟩)))
      (some (.z3950 (.sortResponse ⟨0, none⟩)))) :=
  not_ok_error _

end Log
end Metaproxy
