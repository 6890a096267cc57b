import Metaproxy.Z3950

/-!
# BackendTest

`filter_backend_test.cpp`: a target whose result sets have 42 records each. What a record looks like
follows from its position, the element set name and the record syntax; `present_of_check`
says what a present of a window of the set gives, and `syntax_record` which syntax a record has.
-/

namespace Metaproxy
namespace BackendTest

open Z3950

def resultSetSize : Int := 42

inductive NamePlusRecord where
  /-- `marc_record`, with the position written into it. -/
  | usmarc (position : Int)
  /-- The same with one holding. -/
  | opac (position : Int) (availableNow : Bool)
  /-- An element `a` with so many bytes in all. -/
  | xml (size : Int)
  | surrogateDiagnostic (d : Bib1) (addinfo : List Char)
deriving DecidableEq, Repr

def NamePlusRecord.syntax_ : NamePlusRecord → Option Oid
  | .usmarc _ => some Oid.usmarc
  | .opac _ _ => some Oid.opac
  | .xml _ => some Oid.xml
  | .surrogateDiagnostic _ _ => none

/-- The default is `F`; only generic names are known. -/
def elementSetName : Option ElementSetNames → Option (List Char)
  | none => some ['F']
  | some (.generic name) => some name
  | some (.databaseSpecific _) => none

/-- `strncmp(element_set_name, "FF", 2) == 0`. -/
def isFF (name : List Char) : Bool := ['F', 'F'].isPrefixOf name

/-- Which element set names go with which syntaxes. -/
def check (recordSyntax : Oid) (name : List Char) : Except (Bib1 × List Char) Unit :=
  if recordSyntax = Oid.xml then
    if isFF name ∨ name = ['S', 'D'] then .ok () else .error (.specifiedElementSetNameNotValid, name)
  else if recordSyntax = Oid.usmarc ∨ recordSyntax = Oid.opac then
    if name = ['B'] ∨ name = ['F'] ∨ name = ['S', 'D'] then .ok ()
    else .error (.specifiedElementSetNameNotValid, name)
  else .error (.recordSyntaxUnsupp, [])

def atoiDigits (s : List Char) : Int :=
  (s.takeWhile Char.isDigit).foldl (fun n c => 10 * n + (c.toNat - '0'.toNat)) 0

def atoi (s : List Char) : Int :=
  match s.dropWhile Char.isWhitespace with
  | '-' :: digits => -atoiDigits digits
  | '+' :: digits => atoiDigits digits
  | digits => atoiDigits digits

/-- The size in kilobytes may follow `FF`. -/
def xmlSize (name : List Char) : Int :=
  let sz := if name.length > 2 then atoi (name.drop 2) * 1024 else 1024
  if sz < 10 ∨ sz > 1024 * 1024 then 10 else sz

def record (recordSyntax : Oid) (name : List Char) (position : Int) : NamePlusRecord :=
  if name = ['S', 'D'] then .surrogateDiagnostic .specifiedElementSetNameNotValid ['S', 'D']
  else if isFF name then .xml (xmlSize name)
  else if recordSyntax = Oid.opac then .opac position (name = ['F'])
  else .usmarc position

structure Fetched where
  records : NamePlusRecordList NamePlusRecord
  numberReturned : Int
  nextPosition : Int
deriving DecidableEq, Repr

/-- `start` and `number` are `int`s; their sums wrap around. -/
def fetch (preferredRecordSyntax : Option Oid) (esn : Option ElementSetNames) (start number : Int) :
    Except (Bib1 × List Char) Fetched :=
  if Util.toInt (number + start - 1) > resultSetSize ∨ start < 1 then
    .error (.presentRequestOutOfRange, [])
  else
    match elementSetName esn with
    | none => .error (.specifiedElementSetNameNotValid, [])
    | some name =>
      let recordSyntax := preferredRecordSyntax.getD Oid.usmarc
      match check recordSyntax name with
      | .error e => .error e
      | .ok () =>
        .ok
          { records :=
              { numRecords := number
                records := (List.range number.toNat).map fun (i : Nat) =>
                  record recordSyntax name (start + i) }
            numberReturned := number
            nextPosition :=
              let next := Util.toInt (start + number)
              if next > resultSetSize then 0 else next }

def presentFetched : Except (Bib1 × List Char) Fetched → PresentResponse NamePlusRecord
  | .error (d, addinfo) => .diagnostic d addinfo
  | .ok f =>
    { (PresentResponse.new : PresentResponse NamePlusRecord) with
      records := some (.databaseOrSurDiagnostics f.records)
      numberOfRecordsReturned := f.numberReturned
      nextResultSetPosition := f.nextPosition }

/-- The present request of `process`. -/
def present (req : PresentRequest) : PresentResponse NamePlusRecord :=
  let fetch (esn : Option ElementSetNames) :=
    fetch req.preferredRecordSyntax esn (Util.toInt req.resultSetStartPoint)
      (Util.toInt req.numberOfRecordsRequested)
  match req.recordComposition with
  | none => presentFetched (fetch none)
  | some (.simple esn) => presentFetched (fetch (some esn))
  | some (.complex _) => .diagnostic .onlyASingleElementSetNameSupported []

/-! ## Windows and syntaxes -/

/-- The element set name of a composition that is answered with records. -/
def compositionName : Option RecordComposition → Option (List Char)
  | none => elementSetName none
  | some (.simple esn) => elementSetName (some esn)
  | some (.complex _) => none

/-- The records of the window, and the position after it unless it is the end. -/
theorem present_of_check {req : PresentRequest} {name : List Char}
    (hstart : 1 ≤ req.resultSetStartPoint) (hnumber : 0 < req.numberOfRecordsRequested)
    (hend : req.resultSetStartPoint + req.numberOfRecordsRequested - 1 ≤ 42)
    (hname : compositionName req.recordComposition = some name)
    (hcheck : check (req.preferredRecordSyntax.getD Oid.usmarc) name = .ok ()) :
    present req =
      { records := some (.databaseOrSurDiagnostics
          { numRecords := req.numberOfRecordsRequested
            records := (List.range req.numberOfRecordsRequested.toNat).map fun (i : Nat) =>
              record (req.preferredRecordSyntax.getD Oid.usmarc) name
                (req.resultSetStartPoint + i) })
        numberOfRecordsReturned := req.numberOfRecordsRequested
        nextResultSetPosition :=
          if req.resultSetStartPoint + req.numberOfRecordsRequested > 42 then 0
          else req.resultSetStartPoint + req.numberOfRecordsRequested
        presentStatus := .success
        otherInfo := none } := by
  have hs : Util.toInt req.resultSetStartPoint = req.resultSetStartPoint :=
    Util.toInt_eq (by omega) (by omega)
  have hn : Util.toInt req.numberOfRecordsRequested = req.numberOfRecordsRequested :=
    Util.toInt_eq (by omega) (by omega)
  have hlast : Util.toInt (req.numberOfRecordsRequested + req.resultSetStartPoint - 1) =
      req.numberOfRecordsRequested + req.resultSetStartPoint - 1 :=
    Util.toInt_eq (by omega) (by omega)
  have hnext : Util.toInt (req.resultSetStartPoint + req.numberOfRecordsRequested) =
      req.resultSetStartPoint + req.numberOfRecordsRequested :=
    Util.toInt_eq (by omega) (by omega)
  have hin : ¬ (req.numberOfRecordsRequested + req.resultSetStartPoint - 1 > 42 ∨
      req.resultSetStartPoint < 1) := by omega
  have hfetch : ∀ esn, elementSetName esn = some name →
      fetch req.preferredRecordSyntax esn req.resultSetStartPoint req.numberOfRecordsRequested =
        .ok
          { records :=
              { numRecords := req.numberOfRecordsRequested
                records := (List.range req.numberOfRecordsRequested.toNat).map fun (i : Nat) =>
                  record (req.preferredRecordSyntax.getD Oid.usmarc) name
                    (req.resultSetStartPoint + i) }
            numberReturned := req.numberOfRecordsRequested
            nextPosition :=
              if req.resultSetStartPoint + req.numberOfRecordsRequested > 42 then 0
              else req.resultSetStartPoint + req.numberOfRecordsRequested } := by
    intro esn hesn
    simp only [fetch, hlast, hnext, resultSetSize, if_neg hin, hesn, hcheck]
  unfold present
  cases hcomp : req.recordComposition with
  | none =>
    rw [hcomp] at hname
    simp only [hs, hn, hfetch none hname]
    rfl
  | some comp =>
    rw [hcomp] at hname
    cases comp with
    | simple esn =>
      simp only [hs, hn, hfetch (some esn) hname]
      rfl
    | complex encoding => cases hname

/-- Records come from a check that passed, for positions that do not wrap around. -/
theorem of_present_records {req : PresentRequest} {l : NamePlusRecordList NamePlusRecord}
    (h : (present req).records = some (.databaseOrSurDiagnostics l)) :
    ∃ name, compositionName req.recordComposition = some name ∧
      check (req.preferredRecordSyntax.getD Oid.usmarc) name = .ok () ∧
      l.numRecords = Util.toInt req.numberOfRecordsRequested ∧
      1 ≤ Util.toInt req.resultSetStartPoint ∧
      Util.toInt (Util.toInt req.numberOfRecordsRequested +
        Util.toInt req.resultSetStartPoint - 1) ≤ 42 ∧
      l.records = (List.range l.numRecords.toNat).map fun (i : Nat) =>
        record (req.preferredRecordSyntax.getD Oid.usmarc) name
          (Util.toInt req.resultSetStartPoint + i) := by
  have hfetched : ∀ esn, (presentFetched (fetch req.preferredRecordSyntax esn
      (Util.toInt req.resultSetStartPoint) (Util.toInt req.numberOfRecordsRequested))).records =
        some (.databaseOrSurDiagnostics l) →
      ∃ name, elementSetName esn = some name ∧
        check (req.preferredRecordSyntax.getD Oid.usmarc) name = .ok () ∧
        l.numRecords = Util.toInt req.numberOfRecordsRequested ∧
        1 ≤ Util.toInt req.resultSetStartPoint ∧
        Util.toInt (Util.toInt req.numberOfRecordsRequested +
          Util.toInt req.resultSetStartPoint - 1) ≤ 42 ∧
        l.records = (List.range l.numRecords.toNat).map fun (i : Nat) =>
          record (req.preferredRecordSyntax.getD Oid.usmarc) name
            (Util.toInt req.resultSetStartPoint + i) := by
    intro esn hrecords
    unfold fetch at hrecords
    split at hrecords
    · cases hrecords
    · rename_i hin
      split at hrecords
      · cases hrecords
      · rename_i name hname
        simp only at hrecords
        split at hrecords
        · cases hrecords
        · rename_i hcheck
          simp only [presentFetched] at hrecords
          cases hrecords
          simp only [resultSetSize, not_or, gt_iff_lt, Int.not_lt] at hin
          exact ⟨name, hname, hcheck, rfl, hin.2, hin.1, rfl⟩
  unfold present at h
  cases hcomp : req.recordComposition with
  | none =>
    simp only [hcomp] at h
    exact hfetched none h
  | some comp =>
    cases comp with
    | simple esn =>
      simp only [hcomp] at h
      exact hfetched (some esn) h
    | complex encoding =>
      simp only [hcomp] at h
      cases h

/-- A record that passes the check has the syntax asked for, unless it is a diagnostic. -/
theorem syntax_record {recordSyntax : Oid} {name : List Char}
    (h : check recordSyntax name = .ok ()) (position : Int) :
    (record recordSyntax name position).syntax_ = none ∨
      (record recordSyntax name position).syntax_ = some recordSyntax := by
  unfold check at h
  unfold record
  split
  · exact .inl rfl
  · rename_i hsd
    split
    · rename_i hff
      split at h
      · rename_i hxml
        exact .inr (congrArg some hxml.symm)
      · split at h
        · split at h
          · rename_i hname
            rcases hname with rfl | rfl | rfl
            · cases hff
            · cases hff
            · exact absurd rfl hsd
          · cases h
        · cases h
    · rename_i hff
      split at h
      · split at h
        · rename_i hname
          rcases hname with hname | hname
          · exact absurd hname hff
          · exact absurd hname hsd
        · cases h
      · split at h
        · rename_i hform
          split
          · rename_i hopac
            exact .inr (congrArg some hopac.symm)
          · rename_i hopac
            rcases hform with rfl | rfl
            · exact .inr rfl
            · exact absurd rfl hopac
        · cases h

end BackendTest
end Metaproxy
