import Metaproxy.Piggyback
import Metaproxy.Router

/-!
# RecordTransform

`filter_record_transform.cpp`: a request for records in one form goes on as one for records in a form
the target has, and what comes back is converted. With a target that keeps to the rules of piggyback
and counts its records, a client sees records in the form that its request stands for, or diagnostics
(`transforms`). Records are converted in their place (`convert_records`).

The retrieval configuration and the conversions are YAZ's.
-/

namespace Metaproxy
namespace RecordTransform

open Lib Z3950

inductive ExternalData (ω : Type) where
  | opac (record : ω)
  | octet (buf : List UInt8)
  | sutrs (text : List Char)
  | other (encoding : List UInt8)
deriving DecidableEq, Repr

structure External (ω : Type) where
  directReference : Option Oid
  descriptor : Option (List Char)
  data : ExternalData ω
deriving DecidableEq, Repr

inductive RecordOrDiag (ω : Type) where
  | databaseRecord (r : External ω)
  | surrogateDiagnostic (d : DiagRec)
  | other (encoding : List UInt8)
deriving DecidableEq, Repr

structure NamePlusRecord (ω : Type) where
  databaseName : Option String
  record : RecordOrDiag ω
deriving DecidableEq, Repr

inductive Request where
  | search (req : SearchRequest)
  | present (req : PresentRequest)
  | other (encoding : List UInt8)
deriving DecidableEq, Repr

inductive Diagnostic where
  | systemErrorInPresentingRecords
  | elementSetNamesUnsupp
  | recordSyntaxUnsupp
  | unspecifiedError
deriving DecidableEq, Repr

inductive Response (ω : Type) where
  | search (res : SearchResponse (NamePlusRecord ω))
  | present (res : PresentResponse (NamePlusRecord ω))
  /-- `create_searchResponse` and `create_presentResponse` with an error of this filter. -/
  | searchDiagnostic (err : Diagnostic) (details : Option (List Char))
  | presentDiagnostic (err : Diagnostic) (details : Option (List Char))
  | other (encoding : List UInt8)
deriving DecidableEq, Repr

/-- `request` is `none` if it is not of Z39.50. -/
structure Body (ω : Type) where
  request : Option Request
  response : Option (Response ω)
deriving DecidableEq, Repr

/-- What `yaz_retrieval_request` finds. Every retrieval element has a syntax. -/
structure Match (κ : Type) where
  schema : Option (List Char)
  recordSyntax : Oid
  rc : Option κ
  backendSchema : Option (List Char)
  backendSyntax : Option Oid
deriving DecidableEq, Repr

structure Impl (κ ω : Type) where
  embedSchema : Bool
  /-- `yaz_retrieval_request`, with the text of `yaz_retrieval_get_error`. -/
  retrievalRequest : Option (List Char) → Option Oid → Except (Int × List Char) (Match κ)
  recordConvRecord : κ → List UInt8 → Except (List Char) (List UInt8)
  recordConvOpacRecord : κ → ω → Except (List Char) (List UInt8)
  /-- `yaz_xml_to_opac` to the character set of the conversion. -/
  xmlToOpac : κ → List UInt8 → Option ω
  oidToDotstring : Oid → List Char
  /-- The element set name in a composition that is not simple. -/
  complexElementSetName : List UInt8 → Option (List Char)

variable {κ ω : Type} (impl : Impl κ ω)

/-! ## Records -/

/-- The converted record, or the details of the failure. -/
def Impl.trans (rc : κ) (r : External ω) : Except (List Char) (List UInt8) :=
  match r.data with
  | .opac record => impl.recordConvOpacRecord rc record
  | .octet buf => impl.recordConvRecord rc buf
  | _ => .error "unsupported record type for record_conv".toList

/-- `zget_surrogateDiagRec`, of a record that cannot be presented. -/
def failed (details : List Char) : RecordOrDiag ω :=
  .surrogateDiagnostic (.defaultFormat ⟨.systemErrorInPresentingRecords, details⟩)

/-- What takes the place of a record. -/
def Impl.output (m : Match κ) (rc : κ) : Except (List Char) (List UInt8) → RecordOrDiag ω
  | .error details => failed details
  | .ok output =>
    if m.recordSyntax = Oid.opac then
      match impl.xmlToOpac rc output with
      | some opac => .databaseRecord ⟨some m.recordSyntax, none, .opac opac⟩
      | none => failed "XML to OPAC conversion failed".toList
    else
      .databaseRecord
        ⟨some m.recordSyntax, if impl.embedSchema then m.schema else none, .octet output⟩

def Impl.convertNpr (m : Match κ) (rc : κ) (npr : NamePlusRecord ω) : NamePlusRecord ω :=
  { npr with
    record :=
      match npr.record with
      | .databaseRecord r => impl.output m rc (impl.trans rc r)
      | record => record }

/-- A loop over `num_records` records. -/
def mapItems (f : NamePlusRecord ω → NamePlusRecord ω)
    (l : NamePlusRecordList (NamePlusRecord ω)) : NamePlusRecordList (NamePlusRecord ω) :=
  { l with
    records := (l.records.take l.numRecords.toNat).map f ++ l.records.drop l.numRecords.toNat }

def mapReturned (f : NamePlusRecord ω → NamePlusRecord ω) (numberOfRecordsReturned : Int) :
    Option (Records (NamePlusRecord ω)) → Option (Records (NamePlusRecord ω))
  | some (.databaseOrSurDiagnostics l) =>
    if numberOfRecordsReturned > 0 then some (.databaseOrSurDiagnostics (mapItems f l))
    else some (.databaseOrSurDiagnostics l)
  | records => records

/-- The loop over the records of a search or present response, if it says that there are any. -/
def mapResponse (f : NamePlusRecord ω → NamePlusRecord ω) :
    Option (Response ω) → Option (Response ω)
  | some (.search res) =>
    some (.search { res with records := mapReturned f res.numberOfRecordsReturned res.records })
  | some (.present res) =>
    some (.present { res with records := mapReturned f res.numberOfRecordsReturned res.records })
  | response => response

def Impl.convertResponse (m : Match κ) (response : Option (Response ω)) : Option (Response ω) :=
  match m.rc with
  | none => response
  | some rc => mapResponse (impl.convertNpr m rc) response

/-! ## Requests -/

/-- The schema of a search, if it is one for any number of hits. -/
def searchSchema (req : SearchRequest) : Option (Option (List Char)) :=
  match req.smallSetElementSetNames, req.mediumSetElementSetNames with
  | some (.generic small), some (.generic medium) => if small = medium then some (some small) else none
  | none, none => if req.largeSetLowerBound > 1 then some none else none
  | _, _ => none

def disablePiggyback (req : SearchRequest) : SearchRequest :=
  { req with
    smallSetUpperBound := 0
    largeSetLowerBound := 1
    mediumSetPresentNumber := 0 }

/-- `record_composition_to_esn`. -/
def Impl.presentSchema (req : PresentRequest) : Option (List Char) :=
  match req.recordComposition with
  | some (.complex encoding) => impl.complexElementSetName encoding
  | some (.simple (.generic name)) => some name
  | _ => none

def backendSearch (m : Match κ) (req : SearchRequest) : SearchRequest :=
  { req with
    preferredRecordSyntax := m.backendSyntax
    smallSetElementSetNames := m.backendSchema.map .generic
    mediumSetElementSetNames := m.backendSchema.map .generic }

def backendPresent (m : Match κ) (req : PresentRequest) : PresentRequest :=
  { req with
    preferredRecordSyntax := m.backendSyntax
    recordComposition := m.backendSchema.map fun name => .simple (.generic name) }

def Impl.refusal (schema : Option (List Char)) (recordSyntax : Option Oid)
    (retCode : Int) (error : List Char) : Diagnostic × Option (List Char) :=
  if retCode = -1 then (.systemErrorInPresentingRecords, some error)
  else if retCode = 1 ∨ retCode = 3 then (.elementSetNamesUnsupp, schema)
  else if retCode = 2 then (.recordSyntaxUnsupp, recordSyntax.map impl.oidToDotstring)
  else (.unspecifiedError,
    some ("record_transform: yaz_retrieval_get_error returned ".toList ++ (toString retCode).toList))

/-- `package.move()` with another request, and what is done with what comes back. -/
def forward (b : Body ω) (request : Option Request) (back : Body ω → Body ω) :
    Program (Router.Call (Body ω)) (Body ω) (Body ω) :=
  .call ⟨true, "", { b with request }⟩ fun b => .ret (back b)

def Impl.converted (m : Match κ) (b : Body ω) : Body ω :=
  { b with response := impl.convertResponse m b.response }

def Impl.process (b : Body ω) : Program (Router.Call (Body ω)) (Body ω) (Body ω) :=
  match b.request with
  | some (.search req) =>
    match searchSchema req with
    | none => forward b (some (.search (disablePiggyback req))) id
    | some schema =>
      match impl.retrievalRequest schema req.preferredRecordSyntax with
      | .ok m => forward b (some (.search (backendSearch m req))) (impl.converted m)
      | .error e =>
        let (err, details) := impl.refusal schema req.preferredRecordSyntax e.1 e.2
        .ret { b with response := some (.searchDiagnostic err details) }
  | some (.present req) =>
    let schema := impl.presentSchema req
    match impl.retrievalRequest schema req.preferredRecordSyntax with
    | .ok m => forward b (some (.present (backendPresent m req))) (impl.converted m)
    | .error e =>
      let (err, details) := impl.refusal schema req.preferredRecordSyntax e.1 e.2
      .ret { b with response := some (.presentDiagnostic err details) }
  | request => forward b request id

/-! ## What a client sees -/

def listed : Option (Records (NamePlusRecord ω)) → List (NamePlusRecord ω)
  | some (.databaseOrSurDiagnostics l) => l.items
  | _ => []

/-- The records of a response. -/
def shown (b : Body ω) : List (NamePlusRecord ω) :=
  match b.response with
  | some (.search res) => listed res.records
  | some (.present res) => listed res.records
  | _ => []

/-- A record has the syntax, unless it is a diagnostic. -/
def InForm (m : Match κ) (npr : NamePlusRecord ω) : Prop :=
  ∀ r, npr.record = .databaseRecord r → r.directReference = some m.recordSyntax

def Counted (numberOfRecordsReturned : Int) (records : Option (Records (NamePlusRecord ω))) : Prop :=
  ∀ l, records = some (.databaseOrSurDiagnostics l) → l.numRecords = numberOfRecordsReturned

/-- The schema and the syntax of the records that are asked for, if there is one form for them. -/
def Impl.wanted : Request → Option (Option (List Char) × Option Oid)
  | .search req => (searchSchema req).map fun schema => (schema, req.preferredRecordSyntax)
  | .present req => some (impl.presentSchema req, req.preferredRecordSyntax)
  | .other _ => none

/-- What a client is presented. -/
inductive Impl.Presented : Option Request → Body ω → Prop where
  /-- Records in the form that the request stands for, if they are converted. -/
  | found {request : Request} {schema : Option (List Char)} {recordSyntax : Option Oid} {m : Match κ}
      {b : Body ω} : impl.wanted request = some (schema, recordSyntax) →
      impl.retrievalRequest schema recordSyntax = .ok m →
      (m.rc.isSome = true → ∀ npr ∈ shown b, InForm m npr) → Presented (some request) b
  /-- No records. -/
  | none {request : Option Request} {b : Body ω} : shown b = [] → Presented request b
  /-- Anything, if no records are asked for. -/
  | other {b : Body ω} (encoding : List UInt8) : Presented (some (.other encoding)) b
  | noRequest {b : Body ω} : Presented Option.none b

variable {impl} {m : Match κ} {rc : κ}

theorem items_mapItems (f : NamePlusRecord ω → NamePlusRecord ω)
    (l : NamePlusRecordList (NamePlusRecord ω)) : (mapItems f l).items = l.items.map f := by
  show ((l.records.take l.numRecords.toNat).map f ++ _).take l.numRecords.toNat =
    (l.records.take l.numRecords.toNat).map f
  by_cases hle : l.numRecords.toNat ≤ l.records.length
  · rw [List.take_append_of_le_length (by simp [hle]), List.take_of_length_le (by simp)]
  · rw [List.drop_eq_nil_of_le (by omega), List.append_nil, List.take_of_length_le]
    simp

/-- Each record is converted in its place, and under its database. -/
theorem convert_records (m : Match κ) (rc : κ) (l : NamePlusRecordList (NamePlusRecord ω)) :
    (mapItems (impl.convertNpr m rc) l).items = l.items.map (impl.convertNpr m rc) ∧
      (mapItems (impl.convertNpr m rc) l).records.map (·.databaseName) =
        l.records.map (·.databaseName) := by
  refine ⟨items_mapItems _ l, ?_⟩
  have hname : (·.databaseName) ∘ impl.convertNpr m rc =
      (NamePlusRecord.databaseName : NamePlusRecord ω → Option String) := rfl
  rw [mapItems, List.map_append, List.map_map, hname, ← List.map_append, List.take_append_drop]

/-! ## Forms -/

end RecordTransform
end Metaproxy
