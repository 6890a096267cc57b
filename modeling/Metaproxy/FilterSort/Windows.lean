import Metaproxy.FilterSort.Pages

/-!
# FilterSort.Windows

Which windows are shown from a list? `handle_present` compares the end of the window with the size
of the list. It compares neither the start nor the number, and the sum may leave its type.

* `localList_eq_some_iff` — when a list is used.
* `handlePresent_answersProperly_iff` — when what is shown is the window.
-/

namespace Metaproxy
namespace FilterSort

open Lib Z3950

variable {ρ : Type*} {impl : Impl ρ} {f : Frontend ρ} {closed : Bool} {rset : ResultSet ρ}
  {l : RecordList ρ} {req : PresentRequest} {answers : List (Answer ρ)} {r : Result ρ}

/-- The window is one of the list. -/
structure Inside (l : RecordList ρ) (req : PresentRequest) : Prop where
  start : 1 ≤ req.resultSetStartPoint
  number : 0 ≤ req.numberOfRecordsRequested
  last : req.resultSetStartPoint + req.numberOfRecordsRequested - 1 ≤ l.nprList.length

/-- The response has the records of the window, in the order of the list. -/
structure ShowsWindow (impl : Impl ρ) (l : RecordList ρ) (req : PresentRequest)
    (nprl : NamePlusRecordList (Option ρ)) : Prop where
  number : nprl.numRecords = req.numberOfRecordsRequested
  records : ∀ i : Nat, (i : Int) < nprl.numRecords → ∃ npr, nprl.records[i]? = some (some npr) ∧
    (l.displayed impl.ascending)[req.resultSetStartPoint.toNat - 1 + i]? = some npr

/-- Nothing is sent, and the window is shown from the list; or the request is sent as it is. -/
def AnswersProperly (impl : Impl ρ) (l : RecordList ρ) (req : PresentRequest) (r : Result ρ) :
    Prop :=
  (r.requests req = [] ∧ Inside l req ∧ ∃ res nprl, r.response = some (.present res) ∧
    res.records = some (.databaseOrSurDiagnostics nprl) ∧ ShowsWindow impl l req nprl) ∨
  r.requests req = req :: r.sent

theorem localList_eq_some_iff (hl : listOf req rset = some l) : localList rset req = some l ↔
    Util.toOdrInt (req.resultSetStartPoint - 1 + req.numberOfRecordsRequested) ≤ l.size := by
  have hfind : rset.recordLists.find? (fun l => l.cmp req.preferredRecordSyntax) = some l := hl
  rw [localList, hfind, Option.filter_eq_some_iff, decide_eq_true_eq, and_iff_right rfl]

theorem localList_eq_none_iff (hl : listOf req rset = some l) : localList rset req = none ↔
    l.size < Util.toOdrInt (req.resultSetStartPoint - 1 + req.numberOfRecordsRequested) := by
  have hfind : rset.recordLists.find? (fun l => l.cmp req.preferredRecordSyntax) = some l := hl
  rw [localList, hfind, Option.filter_eq_none_iff]
  simp only [Option.some.injEq, forall_eq', decide_eq_true_eq, Int.not_le]

theorem forwardPresent_requests
    (h : forwardPresent impl f closed rset req answers = some r) :
    r.requests req = req :: r.sent := by
  cases answers with
  | nil => cases h
  | cons b answers =>
    rw [forwardPresent] at h
    simp only at h
    split at h
    · obtain ⟨handled, -, rfl⟩ := Option.map_eq_some_iff.mp h
      rfl
    · cases h
      rfl

theorem localResponse_shows (hcounted : l.nprList.length < 2147483648) (h : Inside l req) :
    ∃ nprl, (localResponse impl l req).records = some (.databaseOrSurDiagnostics nprl) ∧
      ShowsWindow impl l req nprl := by
  obtain ⟨hstart, hnumber, hlast⟩ := h
  have hnum : Util.toInt req.numberOfRecordsRequested = req.numberOfRecordsRequested :=
    Util.toInt_eq (by omega) (by omega)
  have hlen := l.length_displayed impl.ascending
  refine ⟨_, rfl, hnum, fun i hi => ?_⟩
  simp only [hnum] at hi ⊢
  have hpos : Util.toInt ((i : Int) + req.resultSetStartPoint - 1) =
      ((req.resultSetStartPoint.toNat - 1 + i : Nat) : Int) := by
    rw [Util.toInt_eq (by omega) (by omega)]
    omega
  have hin : req.resultSetStartPoint.toNat - 1 + i < (l.displayed impl.ascending).length := by omega
  refine ⟨_, ?_, List.getElem?_eq_getElem hin⟩
  rw [List.getElem?_map, List.getElem?_range (by omega), Option.map_some, hpos,
    RecordList.get_eq hcounted (by omega), List.getElem?_eq_getElem hin]

/-- For every list, and every present request in its syntax: the window is shown from the list or
the request is sent on as it is, if and only if the start is at least 1, the number is not negative
and their sum stays in its type; or this sum, as it comes out, is beyond the list anyway. -/
theorem handlePresent_answersProperly_iff (hset : f.sets.lookup req.resultSetId = some rset)
    (hl : listOf req rset = some l) (hcounted : l.nprList.length < 2147483648)
    (hr : handlePresent impl f closed req answers = some r) :
    AnswersProperly impl l req r ↔
      (1 ≤ req.resultSetStartPoint ∧ 0 ≤ req.numberOfRecordsRequested ∧
        req.resultSetStartPoint - 1 + req.numberOfRecordsRequested < 9223372036854775808) ∨
      l.nprList.length <
        Util.toOdrInt (req.resultSetStartPoint - 1 + req.numberOfRecordsRequested) := by
  have hsize := RecordList.size_eq hcounted
  by_cases hlocal : localList rset req = some l
  · have hle := (localList_eq_some_iff hl).mp hlocal
    rw [hsize] at hle
    rw [handlePresent_eq_local hset hlocal] at hr
    obtain rfl := Option.some.inj hr
    constructor
    · rintro (⟨-, ⟨hstart, hnumber, hlast⟩, -⟩ | hsent)
      · exact .inl ⟨hstart, hnumber, by omega⟩
      · cases hsent
    · rintro (⟨hstart, hnumber, hsum⟩ | hlt)
      · rw [Util.toOdrInt_eq (by omega) hsum] at hle
        have hinside : Inside l req := ⟨hstart, hnumber, by omega⟩
        obtain ⟨nprl, hnprl, hshows⟩ := localResponse_shows hcounted hinside
        exact .inl ⟨rfl, hinside, _, nprl, rfl, hnprl, hshows⟩
      · omega
  · have hlt : l.size <
        Util.toOdrInt (req.resultSetStartPoint - 1 + req.numberOfRecordsRequested) := by
      rw [localList_eq_some_iff hl] at hlocal
      omega
    rw [handlePresent_eq_forward hset ((localList_eq_none_iff hl).mpr hlt)] at hr
    refine iff_of_true (.inr (forwardPresent_requests hr)) (.inr ?_)
    rw [← hsize]
    exact hlt

/-! ## A list of two -/

def twoSorted : RecordList Nat := ⟨none, [1, 2]⟩

def twoOpen : Frontend Nat :=
  ⟨true, (∅ : Table String (ResultSet Nat)).insert "default" ⟨3, [twoSorted]⟩⟩

/-- The score of a number is its last byte. -/
def byByte (ascending : Bool) : Impl Nat := ⟨20, ascending, fun r => [UInt8.ofNat r]⟩

def windowOf (start number : Int) : PresentRequest := ⟨"default", start, number, none, none⟩

theorem handlePresent_answersProperly_two : ∃ r,
    handlePresent (byByte false) twoOpen false (windowOf 1 2) [] = some r ∧
      fetched ⟨r.closed, r.response⟩ = [some 2, some 1] ∧
      AnswersProperly (byByte false) twoSorted (windowOf 1 2) r := by
  have hr : handlePresent (byByte false) twoOpen false (windowOf 1 2) [] = some _ := rfl
  refine ⟨_, hr, rfl, ?_⟩
  exact (handlePresent_answersProperly_iff rfl rfl (by decide) hr).mpr (.inl (by decide))

/-- Position 0 is answered with the record at position 1, and a request for -1 records with a list
of that size. -/
theorem handlePresent_not_answersProperly :
    (∃ r, handlePresent (byByte true) twoOpen false (windowOf 0 1) [] = some r ∧
      fetched ⟨r.closed, r.response⟩ = [some 1] ∧
      ¬ AnswersProperly (byByte true) twoSorted (windowOf 0 1) r) ∧
    (∃ r, handlePresent (byByte true) twoOpen false (windowOf 1 (-1)) [] = some r ∧
      ¬ AnswersProperly (byByte true) twoSorted (windowOf 1 (-1)) r) := by
  refine ⟨⟨_, rfl, rfl, ?_⟩, ⟨_, rfl, ?_⟩⟩
  · rintro (⟨-, hinside, -⟩ | hsent)
    · exact absurd hinside.start (by decide)
    · cases hsent
  · rintro (⟨-, hinside, -⟩ | hsent)
    · exact absurd hinside.number (by decide)
    · cases hsent

end FilterSort
end Metaproxy
