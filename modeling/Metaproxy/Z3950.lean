import Mathlib.Data.List.Basic
import Metaproxy.Util

/-!
# Z3950

What the filters read and write of the present service.
-/

namespace Metaproxy

abbrev Oid := List Nat

namespace Oid

def usmarc : Oid := [1, 2, 840, 10003, 5, 10]

def opac : Oid := [1, 2, 840, 10003, 5, 102]

def xml : Oid := [1, 2, 840, 10003, 5, 109, 10]

end Oid

namespace Z3950

inductive ElementSetNames where
  | generic (name : List Char)
  | databaseSpecific (encoding : List UInt8)
deriving DecidableEq, Repr

inductive RecordComposition where
  | simple (esn : ElementSetNames)
  | complex (encoding : List UInt8)
deriving DecidableEq, Repr

structure PresentRequest where
  resultSetId : String
  resultSetStartPoint : Int
  numberOfRecordsRequested : Int
  preferredRecordSyntax : Option Oid
  recordComposition : Option RecordComposition
deriving DecidableEq, Repr

/-- The same request for another window. -/
def windowRequest (pr : PresentRequest) (start number : Int) : PresentRequest :=
  { pr with
    numberOfRecordsRequested := number
    resultSetStartPoint := start }

inductive PresentStatus where
  | success
  | failure
  | other (status : Int)
deriving DecidableEq, Repr

/-- `num_records` is a member of its own. -/
structure NamePlusRecordList (ρ : Type*) where
  numRecords : Int
  records : List ρ
deriving DecidableEq, Repr

structure DefaultDiagFormat where
  condition : Bib1
  addinfo : List Char
deriving DecidableEq, Repr

inductive DiagRec where
  | defaultFormat (d : DefaultDiagFormat)
  | externallyDefined (encoding : List UInt8)
deriving DecidableEq, Repr

inductive Records (ρ : Type*) where
  | databaseOrSurDiagnostics (l : NamePlusRecordList ρ)
  | nonSurrogateDiagnostic (d : DefaultDiagFormat)
  | multipleNonSurDiagnostics (diagRecs : List DiagRec)
deriving DecidableEq, Repr

structure PresentResponse (ρ : Type*) where
  numberOfRecordsReturned : Int
  nextResultSetPosition : Int
  presentStatus : PresentStatus
  records : Option (Records ρ)
  otherInfo : Option (List UInt8)
deriving DecidableEq, Repr

/-- `odr::create_presentResponse` without an error. -/
def PresentResponse.new {ρ : Type*} : PresentResponse ρ := ⟨0, 0, .success, none, none⟩

/-- `odr::create_presentResponse` with an error. -/
def PresentResponse.diagnostic {ρ : Type*} (d : Bib1) (addinfo : List Char) : PresentResponse ρ :=
  ⟨0, 0, .failure, some (.nonSurrogateDiagnostic ⟨d, addinfo⟩), none⟩

/-- The records that are there. -/
def NamePlusRecordList.items {ρ : Type*} (l : NamePlusRecordList ρ) : List ρ :=
  l.records.take l.numRecords.toNat

/-- The records of a window of a result set. -/
def window {ρ : Type*} (set : List ρ) (start number : Int) : NamePlusRecordList ρ :=
  ⟨number, (set.drop (start - 1).toNat).take number.toNat⟩

structure SearchRequest where
  resultSetName : String
  replaceIndicator : Bool
  preferredRecordSyntax : Option Oid
  smallSetUpperBound : Int
  largeSetLowerBound : Int
  mediumSetPresentNumber : Int
  smallSetElementSetNames : Option ElementSetNames
  mediumSetElementSetNames : Option ElementSetNames
  /-- Databases and query. -/
  encoding : List UInt8
deriving DecidableEq, Repr

structure SearchResponse (ρ : Type*) where
  resultCount : Int
  numberOfRecordsReturned : Int
  nextResultSetPosition : Int
  searchStatus : Bool
  records : Option (Records ρ)
deriving DecidableEq, Repr

/-- `odr::create_searchResponse` with an error. -/
def SearchResponse.diagnostic {ρ : Type*} (d : Bib1) (addinfo : List Char) : SearchResponse ρ :=
  ⟨0, 0, 0, false, some (.nonSurrogateDiagnostic ⟨d, addinfo⟩)⟩

inductive Gdu (ρ : Type*) where
  | search (res : SearchResponse ρ)
  | present (res : PresentResponse ρ)
  | other (encoding : List UInt8)
deriving DecidableEq, Repr

section

variable {ρ ρ' : Type*} (f : ρ → ρ')

def Records.map : Records ρ → Records ρ'
  | .databaseOrSurDiagnostics l => .databaseOrSurDiagnostics ⟨l.numRecords, l.records.map f⟩
  | .nonSurrogateDiagnostic d => .nonSurrogateDiagnostic d
  | .multipleNonSurDiagnostics ds => .multipleNonSurDiagnostics ds

def PresentResponse.map (res : PresentResponse ρ) : PresentResponse ρ' :=
  { res with records := res.records.map (Records.map f) }

def SearchResponse.map (res : SearchResponse ρ) : SearchResponse ρ' :=
  { res with records := res.records.map (Records.map f) }

def Gdu.map : Gdu ρ → Gdu ρ'
  | .search res => .search (res.map f)
  | .present res => .present (res.map f)
  | .other encoding => .other encoding

end

/-- What a package comes back with from the filters behind: whether they closed its session, and
the response, if there is one. -/
structure Answer (ρ : Type*) where
  closed : Bool
  response : Option (Gdu ρ)
deriving DecidableEq, Repr

end Z3950
end Metaproxy
