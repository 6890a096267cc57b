import Mathlib.Data.List.Sort
import Metaproxy.Lib.Table
import Metaproxy.Z3950

/-!
# FilterSort.Frontend

The frontend session of `filter_sort.cpp`: the records that it fetches ahead and sorts, and the
present requests that it answers from them.

A record is of some type `ρ`; `score` is what the XPath expression finds in it. What the packages
come back with is a list of answers, that of the client's own request first; a request ends with
`none` when it wants another one.
-/

namespace Metaproxy
namespace FilterSort

open Lib Z3950

variable {ρ : Type*}

/-! ## Lists of records -/

structure Impl (ρ : Type*) where
  prefetch : Int
  ascending : Bool
  score : ρ → List UInt8

structure RecordList (ρ : Type*) where
  syntax_ : Option Oid
  nprList : List ρ

def RecordList.cmp (l : RecordList ρ) (syntax_ : Option Oid) : Bool := l.syntax_ = syntax_

/-- `operator <` the other way round: `strcmp` of the scores. -/
def notBefore (score : ρ → List UInt8) (r s : ρ) : Prop := ¬ score s < score r

instance (score : ρ → List UInt8) : DecidableRel (notBefore score) := fun r s =>
  inferInstanceAs (Decidable (¬ score s < score r))

/-- `std::list::sort`, which is stable. -/
def RecordList.sort (score : ρ → List UInt8) (l : RecordList ρ) : RecordList ρ :=
  { l with nprList := l.nprList.insertionSort (notBefore score) }

def RecordList.size (l : RecordList ρ) : Int := Util.toInt l.nprList.length

/-- A position below the list is taken for its start. -/
def RecordList.get (l : RecordList ρ) (pos : Int) (ascending : Bool) : Option ρ :=
  let i := if ascending then pos else Util.toInt (l.nprList.length - pos - 1)
  l.nprList[i.toNat]?

structure ResultSet (ρ : Type*) where
  hitCount : Int
  recordLists : List (RecordList ρ)

/-! ## `handle_records` -/

/-- The present requests that fetch ahead ask for everything up to `endPos`. -/
structure Prefetch where
  endPos : Int
  syntax_ : Option Oid
  comp : Option RecordComposition
  resultSetId : String

def Prefetch.request (p : Prefetch) (pos : Int) : PresentRequest where
  resultSetId := p.resultSetId
  resultSetStartPoint := pos
  numberOfRecordsRequested := p.endPos - pos + 1
  preferredRecordSyntax := p.syntax_
  recordComposition := p.comp

/-- The records of a present response. -/
def fetched (a : Answer ρ) : List ρ :=
  match a.response with
  | some (.present res) =>
    match res.records with
    | some (.databaseOrSurDiagnostics nprl) => nprl.items
    | _ => []
  | _ => []

/-- Goes on from `pos` as long as the last response had records, of which there were `i`. -/
def Prefetch.loop (p : Prefetch) :
    List (Answer ρ) → (i : Nat) → (pos : Int) → Option (List ρ × List PresentRequest)
  | [], i, pos => if i ≠ 0 ∧ pos ≤ p.endPos then none else some ([], [])
  | a :: answers, i, pos =>
    if i ≠ 0 ∧ pos ≤ p.endPos then
      let records := fetched a
      (p.loop answers records.length (pos + records.length)).map fun r =>
        (records ++ r.1, p.request pos :: r.2)
    else some ([], [])

/-- What `handle_records` leaves: the result set, the records of the response, and what it sent. -/
structure Handled (ρ : Type*) where
  set : ResultSet ρ
  records : Option (Records (Option ρ))
  sent : List PresentRequest

def handleRecords (impl : Impl ρ) (records : Option (Records ρ)) (startPos : Int)
    (s : ResultSet ρ) (syntax_ : Option Oid) (comp : Option RecordComposition)
    (resultSetId : String) (answers : List (Answer ρ)) : Option (Handled ρ) :=
  let unchanged : Handled ρ := ⟨s, records.map (Records.map some), []⟩
  match records with
  | some (.databaseOrSurDiagnostics nprl) =>
    if startPos ≠ 1 then some unchanged
    else if s.recordLists.any fun l => l.cmp syntax_ then some unchanged
    else
      let endPos := if impl.prefetch > s.hitCount then Util.toInt s.hitCount else impl.prefetch
      let first := nprl.items
      let p : Prefetch := ⟨endPos, syntax_, comp, resultSetId⟩
      (p.loop answers first.length (1 + first.length)).map fun r =>
        let rlp := RecordList.sort impl.score ⟨syntax_, first ++ r.1⟩
        { set := { s with recordLists := s.recordLists ++ [rlp] }
          records := some (.databaseOrSurDiagnostics
            ⟨nprl.numRecords, (List.range nprl.numRecords.toNat).map fun (i : Nat) =>
              rlp.get i impl.ascending⟩)
          sent := r.2 }
  | _ => some unchanged

/-! ## Requests -/

structure Frontend (ρ : Type*) where
  isVirtual : Bool
  sets : Table String (ResultSet ρ)

/-- What a request leaves behind: the frontend, the client's package, whether the package of the
client's own request came back with its session closed (if it was sent), and the requests that
fetched ahead. -/
structure Result (ρ : Type*) where
  frontend : Frontend ρ
  closed : Bool
  response : Option (Gdu (Option ρ))
  forwarded : Option Bool
  sent : List PresentRequest

def elementSetName : Option ElementSetNames → Option (List Char)
  | some (.generic name) => some name
  | _ => none

/-- `piggyback_to_RecordComposition`. -/
def piggybackToRecordComposition (resultSetSize : Int) (req : SearchRequest) :
    Option RecordComposition :=
  (Util.piggybackElementSetName req.smallSetUpperBound req.largeSetLowerBound
    (elementSetName req.smallSetElementSetNames) (elementSetName req.mediumSetElementSetNames)
    resultSetSize).map fun name => .simple (.generic name)

/-- `hitCount` is what happens to be in the `hit_count` of a new set, and `closed` the session of
the client, of which the package of the request has a copy. -/
def handleSearch (impl : Impl ρ) (f : Frontend ρ) (closed : Bool) (req : SearchRequest)
    (hitCount : Int) : List (Answer ρ) → Option (Result ρ)
  | [] =>
    if (f.sets.lookup req.resultSetName).isSome && !req.replaceIndicator then
      some ⟨f, closed,
        some (.search (.diagnostic .resultSetExistsAndReplaceIndicatorOff [])), none, []⟩
    else none
  | b :: answers =>
    if (f.sets.lookup req.resultSetName).isSome && !req.replaceIndicator then
      some ⟨f, closed,
        some (.search (.diagnostic .resultSetExistsAndReplaceIndicatorOff [])), none, []⟩
    else
      let sets := f.sets.erase req.resultSetName
      let s : ResultSet ρ := ⟨hitCount, []⟩
      -- the last statement closes the session of the package that is thrown away
      let bClosed := closed || b.closed
      match b.response with
      | some (.search res) =>
        let s := { s with hitCount := res.resultCount }
        (handleRecords impl res.records 1 s req.preferredRecordSyntax
          (piggybackToRecordComposition res.resultCount req) req.resultSetName answers).map
          fun h =>
            ⟨{ f with sets := sets.insert req.resultSetName h.set }, closed,
              some (.search { (res.map some) with records := h.records }), some bClosed, h.sent⟩
      | response =>
        some ⟨{ f with sets := sets.insert req.resultSetName s }, closed,
          response.map (Gdu.map some), some bClosed, []⟩

/-- The response from a list that covers the window. -/
def localResponse (impl : Impl ρ) (l : RecordList ρ) (req : PresentRequest) :
    PresentResponse (Option ρ) :=
  let numRecords := Util.toInt req.numberOfRecordsRequested
  { (PresentResponse.new : PresentResponse (Option ρ)) with
    nextResultSetPosition :=
      Util.toOdrInt (req.resultSetStartPoint + req.numberOfRecordsRequested)
    numberOfRecordsReturned := req.numberOfRecordsRequested
    records := some (.databaseOrSurDiagnostics
      ⟨numRecords, (List.range numRecords.toNat).map fun (i : Nat) =>
        l.get (Util.toInt (i + req.resultSetStartPoint - 1)) impl.ascending⟩) }

/-- The list that answers a present request, if any: the first of its syntax, when it is long
enough. -/
def localList (rset : ResultSet ρ) (req : PresentRequest) : Option (RecordList ρ) :=
  (rset.recordLists.find? fun l => l.cmp req.preferredRecordSyntax).filter fun l =>
    Util.toOdrInt (req.resultSetStartPoint - 1 + req.numberOfRecordsRequested) ≤ l.size

def forwardPresent (impl : Impl ρ) (f : Frontend ρ) (closed : Bool) (rset : ResultSet ρ)
    (req : PresentRequest) : List (Answer ρ) → Option (Result ρ)
  | [] => none
  | b :: answers =>
    let bClosed := closed || b.closed
    match b.response with
    | some (.present res) =>
      (handleRecords impl res.records req.resultSetStartPoint rset req.preferredRecordSyntax
        req.recordComposition req.resultSetId answers).map fun h =>
          ⟨{ f with sets := f.sets.insert req.resultSetId h.set }, closed,
            some (.present { (res.map some) with records := h.records }), some bClosed, h.sent⟩
    | response => some ⟨f, closed, response.map (Gdu.map some), some bClosed, []⟩

def handlePresent (impl : Impl ρ) (f : Frontend ρ) (closed : Bool) (req : PresentRequest)
    (answers : List (Answer ρ)) : Option (Result ρ) :=
  match f.sets.lookup req.resultSetId with
  | none =>
    some ⟨f, closed, some (.present
      (.diagnostic .specifiedResultSetDoesNotExist req.resultSetId.toList)), none, []⟩
  | some rset =>
    match localList rset req with
    | some l => some ⟨f, closed, some (.present (localResponse impl l req)), none, []⟩
    | none => forwardPresent impl f closed rset req answers

inductive Request where
  | init (encoding : List UInt8)
  | search (req : SearchRequest)
  | present (req : PresentRequest)
  | other (encoding : List UInt8)

/-- The package itself is moved on. -/
def moved (f : Frontend ρ) (closed : Bool) (answers : List (Answer ρ)) : Option (Result ρ) :=
  answers.head?.map fun a =>
    ⟨f, closed || a.closed, a.response.map (Gdu.map some), none, []⟩

def handlePackage (impl : Impl ρ) (f : Frontend ρ) (closed : Bool) (req : Request)
    (hitCount : Int) (answers : List (Answer ρ)) : Option (Result ρ) :=
  match req with
  | .search req => handleSearch impl f closed req hitCount answers
  | .present req => handlePresent impl f closed req answers
  | _ => moved f closed answers

def process (impl : Impl ρ) (f : Frontend ρ) (closed : Bool) (req : Request) (hitCount : Int)
    (answers : List (Answer ρ)) : Option (Result ρ) :=
  if f.isVirtual then handlePackage impl f closed req hitCount answers
  else
    match req with
    | .init _ => moved { f with isVirtual := true } closed answers
    | _ => moved f closed answers

end FilterSort
end Metaproxy
