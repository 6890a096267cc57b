import Metaproxy.SRUtoZ3950.Bounds

/-!
# SRUtoZ3950.Positions

The records of an SRU response and their positions, when the target answers each present request
with some of the records that it asks for. Positions are `int`s in `z3950_present_request`, though
neither those of SRU nor those of Z39.50 are.

* `recordsFrom_inOrder` — slot and position, over any number of answers.
* `presentRecords_positioned_iff` — when each record has its position.
-/

namespace Metaproxy
namespace SRUtoZ3950

open Lib Z3950

variable {impl : Impl} {req : SearchRetrieveRequest} {start num n : Int} {total : Nat}
  {record : Int → NamePlusRecord} {answers : Nat → Answer}

/-! ## What is wanted -/

/-- Each answer has at least one and at most all of the records that are asked for. -/
def InOrder (record : Int → NamePlusRecord) (req : SearchRetrieveRequest) (start : Int)
    (total : Nat) (answers : Nat → Answer) : Prop :=
  ∀ k, Wants (amount answers) total k → ∃ a : Nat,
    1 ≤ a ∧ filled (amount answers) k + a ≤ total ∧
    goesOn (answers k) = some ⟨a, (List.range a).map fun (i : Nat) =>
      record ((presentRequest req start total (filled (amount answers) k : Nat)).resultSetStartPoint
        + i)⟩

/-- The data of an XML record, and a surrogate for every other one. -/
def MadeFrom (npr : NamePlusRecord) (data : RecordData) : Prop :=
  (∃ descriptor bytes schema, npr = .databaseRecord (some Oid.xml) descriptor bytes ∧
    data = .xml schema bytes) ∨
  (∀ descriptor bytes, npr ≠ .databaseRecord (some Oid.xml) descriptor bytes) ∧
    ∃ d, data = .surrogate d

/-- The records of the window of `m` records from position `s` on, of `n`. -/
structure Positioned (record : Int → NamePlusRecord) (s m n : Int) (res : SearchRetrieveResponse) :
    Prop where
  numRecords : res.numRecords = m
  length : (res.records.length : Int) = m
  records : ∀ i : Nat, (i : Int) < m → ∃ r, res.records[i]? = some ((i : Int), r) ∧
    r.position = s + i ∧ MadeFrom (record (s + i)) r.data
  next : res.nextRecordPosition = if s + m ≤ n then some (s + m) else none

theorem madeFrom_recordData (req : SearchRetrieveRequest) (npr : NamePlusRecord) :
    MadeFrom npr (recordData req npr) := by
  cases npr with
  | surrogateDiagnostic d => cases d <;> exact .inr ⟨by simp, _, rfl⟩
  | other => exact .inr ⟨by simp, _, rfl⟩
  | databaseRecord directReference descriptor data =>
    rw [recordData]
    by_cases hxml : directReference = some Oid.xml
    · rw [if_pos hxml, hxml]
      exact .inl ⟨descriptor, data, _, rfl, rfl⟩
    · rw [if_neg hxml]
      refine .inr ⟨fun descriptor' data' heq => ?_, _, rfl⟩
      cases heq
      exact hxml rfl

/-! ## Slots and positions -/

theorem newRecords_map_range (g : Nat → NamePlusRecord) (a : Nat) :
    newRecords req start num ((List.range a).map g) = (List.range a).map fun (i : Nat) =>
      ((i : Int) + num,
        ⟨recordPacking req, Util.toInt ((i : Int) + Util.toInt (start + num)),
          recordData req (g i)⟩) := by
  refine List.ext_getElem? fun i => ?_
  simp only [newRecords, List.getElem?_map, List.getElem?_zipIdx]
  by_cases hi : i < a
  · simp [List.getElem?_range hi]
  · simp [List.getElem?_eq_none (l := List.range a) (by simpa using hi)]

/-- The record at position `start + i`, in slot `i`. -/
def slot (req : SearchRetrieveRequest) (record : Int → NamePlusRecord) (start : Int) (i : Nat) :
    Int × SruRecord :=
  (i, ⟨recordPacking req, start + i, recordData req (record (start + i))⟩)

theorem itemsAt_of_goesOn {k a : Nat} {g : Nat → NamePlusRecord}
    (h : goesOn (answers k) = some ⟨a, (List.range a).map g⟩) :
    itemsAt answers k = (List.range a).map g := by
  rw [itemsAt, h]
  simp only [Option.map_some, Option.getD_some, NamePlusRecordList.items, Int.toNat_natCast]
  exact List.take_of_length_le (by simp)

theorem recordsFrom_inOrder (hstart : 0 ≤ start) (hint : start + total ≤ 2147483648)
    (horder : InOrder record req start total answers) {k : Nat}
    (hwants : ∀ j < k, Wants (amount answers) total j) :
    recordsFrom req start answers 0 k =
      (List.range (filled (amount answers) k)).map (slot req record start) := by
  induction k with
  | zero => rfl
  | succ k ih =>
    obtain ⟨a, hpos, hle, ha⟩ := horder k (hwants k (Nat.lt_succ_self k))
    have hnarrow : Util.toInt (start + (filled (amount answers) k : Nat)) =
        start + (filled (amount answers) k : Nat) := Util.toInt_eq (by omega) (by omega)
    rw [recordsFrom_concat, ih fun j hj => hwants j (by omega), itemsAt_of_goesOn ha,
      newRecords_map_range, filled_succ, amount_eq_some ha, Option.getD_some, Int.toNat_natCast, List.range_add,
      List.map_append, List.map_map]
    refine congrArg _ (List.map_congr_left fun i hi => ?_)
    have hi := List.mem_range.mp hi
    have hposition : Util.toInt ((i : Int) + (start + (filled (amount answers) k : Nat))) =
        start + ((filled (amount answers) k + i : Nat) : Int) := by
      rw [Util.toInt_eq (by omega) (by omega)]
      omega
    have hrecord : start + (filled (amount answers) k : Nat) + (i : Int) =
        start + ((filled (amount answers) k + i : Nat) : Int) := by omega
    have hslot : (i : Int) + (filled (amount answers) k : Nat) =
        ((filled (amount answers) k + i : Nat) : Int) := by omega
    simp only [presentRequest, hnarrow, Function.comp_apply, slot, hposition, hrecord, hslot]

theorem positioned_finished {w : Window} {diagnostics : List Diagnostic} {l : Loop}
    (hstart : 1 ≤ w.start) (hint : min (w.start + total) n < 2147483648)
    (hlast : w.start + total - 1 ≤ n)
    (hrecords : l.records = (List.range total).map (slot req record w.start))
    (hpresented : l.presented = .done total) :
    Positioned record w.start total n (finished w (found diagnostics n) n l) := by
  have hnext : Util.toInt (w.start - 1 + total) = w.start - 1 + total :=
    Util.toInt_eq (by omega) (by omega)
  refine ⟨?_, ?_, ?_, ?_⟩
  · rw [finished]
    simp only [hpresented]
  · rw [records_finished, hrecords, List.length_map, List.length_range]
  · intro i hi
    have hi' : i < total := by omega
    refine ⟨(slot req record w.start i).2, ?_, rfl, madeFrom_recordData req _⟩
    rw [records_finished, hrecords, List.getElem?_map, List.getElem?_range hi']
    rfl
  · rw [finished]
    simp only [hpresented, hnext]
    by_cases hmore : w.start + total ≤ n
    · rw [if_pos hmore, if_pos (by omega), Util.toInt_eq (by omega) (by omega)]
    · rw [if_neg hmore, if_neg (by omega)]

/-! ## Targets in order -/

theorem InOrder.fills (h : InOrder record req start total answers) :
    ∃ k, (∀ j < k, Wants (amount answers) total j) ∧ filled (amount answers) k = total := by
  refine exists_filled ?_ ?_ ?_
  · rintro ⟨k, hwants, hempty⟩
    obtain ⟨a, hpos, -, ha⟩ := h k hwants
    have hzero := hempty k (Nat.le_refl k)
    rw [amount_eq_some ha, Int.toNat_natCast] at hzero
    cases hzero
    omega
  · rintro ⟨k, b, hwants, hb, hlt⟩
    obtain ⟨a, -, hle, ha⟩ := h k hwants
    rw [amount_eq_some ha, Int.toNat_natCast] at hb
    cases hb
    omega
  · intro k hwants
    obtain ⟨a, -, -, ha⟩ := h k hwants
    rw [amount_eq_some ha]
    rfl

/-- Whatever the target splits its answers into, the response comes and is right. -/
def AllPositioned (impl : Impl) (req : SearchRetrieveRequest) (n : Int) : Prop :=
  ∀ diagnostics record answers, Counts answers →
    InOrder record req (window req).start (size impl req n) answers →
    ∃ k fs res, presentRecords impl req (found diagnostics n) n ((List.range k).map answers) =
        some (fs, res) ∧
      Positioned record (window req).start (cutRecs impl (window req) n) n res

theorem allPositioned_of_lt (h : Presents req n) (hstart : 1 ≤ (window req).start)
    (hint : min ((window req).start + cutRecs impl (window req) n) n < 2147483648) :
    AllPositioned impl req n := by
  intro diagnostics record answers hcounts horder
  have hlast := (h.cutRecs_range impl).2.2
  obtain ⟨k, hwants, hfilled⟩ := horder.fills
  have hgo : ∀ j < k, (amount answers j).isSome := by
    intro j hj
    obtain ⟨a, -, -, ha⟩ := horder j (hwants j hj)
    rw [amount_eq_some ha]
    rfl
  have hloop := presentLoop_filled req (window req).start hcounts hwants hgo
    hfilled.ge []
  rw [List.append_nil, recordsFrom_inOrder (by omega) (by rw [h.coe_size]; omega) horder hwants,
    hfilled] at hloop
  rw [← h.coe_size impl] at hint hlast ⊢
  obtain ⟨l, hl, hrecords, hpresented⟩ : ∃ l, presentLoop req (window req).start
      (size impl req n : Nat) ((List.range k).map answers) 0 = some l ∧
      l.records = (List.range (size impl req n)).map (slot req record (window req).start) ∧
      l.presented = .done (size impl req n : Nat) := ⟨_, hloop, rfl, rfl⟩
  refine ⟨k, l.forwarded, finished (window req) (found diagnostics n) n l, ?_,
    positioned_finished hstart hint hlast hrecords hpresented⟩
  rw [h.eq, ← h.coe_size, hl, Option.map_some]

/-- All records at once. -/
def allAtOnce (total : Nat) : Nat → Answer := fun _ => recordsAnswer total

theorem inOrder_allAtOnce (hpos : 0 < total) :
    InOrder (fun _ => anyRecord) req start total (allAtOnce total) := by
  intro k hwants
  have hzero : k = 0 := by
    by_contra hk
    have hbelow := (hwants.of_le (Nat.one_le_iff_ne_zero.mpr hk)).below
    have hone : filled (amount (allAtOnce total)) 1 = 0 + total := filled_succ
    omega
  subst hzero
  refine ⟨total, hpos, by rw [filled_zero]; omega, ?_⟩
  rw [List.map_const', List.length_range]
  rfl

theorem presentLoop_allAtOnce (hpos : 0 < total) {k : Nat} {l : Loop}
    (h : presentLoop req start total ((List.range k).map (allAtOnce total)) 0 = some l) :
    l.records = newRecords req start 0 (List.replicate total anyRecord) ∧
      l.presented = .done total := by
  have hlt : (0 : Int) < total := by omega
  have hgoes : goesOn (allAtOnce total 0) = some ⟨total, List.replicate total anyRecord⟩ := rfl
  cases k with
  | zero =>
    rw [List.range_zero, List.map_nil, presentLoop, if_pos hlt] at h
    cases h
  | succ k =>
    rw [List.range_succ_eq_map, List.map_cons, presentLoop_some hlt hgoes, Int.zero_add,
      presentLoop_done (Int.lt_irrefl _), Option.map_some] at h
    obtain rfl := Option.some.inj h
    refine ⟨?_, rfl⟩
    simp only [Loop.after, List.append_nil, NamePlusRecordList.items, Int.toNat_natCast,
      List.take_replicate, Nat.min_self]

/-- What is right when the target sends all records at once. -/
theorem AllPositioned.allAtOnce (h : Presents req n) (hall : AllPositioned impl req n) :
    ∃ l : Loop, l.records = newRecords req (window req).start 0
        (List.replicate (size impl req n) anyRecord) ∧
      l.presented = .done (size impl req n : Nat) ∧
      Positioned (fun _ => anyRecord) (window req).start (cutRecs impl (window req) n) n
        (finished (window req) (found [] n) n l) := by
  have hpos := (h.cutRecs_range impl).1
  have hsize := h.coe_size impl
  obtain ⟨k, fs, res, hres, hpositioned⟩ := hall [] (fun _ => anyRecord)
    (SRUtoZ3950.allAtOnce (size impl req n)) (counts_recordsAnswer fun _ => size impl req n)
    (inOrder_allAtOnce (by omega))
  rw [h.eq, ← hsize] at hres
  obtain ⟨l, hl, heq⟩ := Option.map_eq_some_iff.mp hres
  cases heq
  obtain ⟨hrecords, hpresented⟩ := presentLoop_allAtOnce (by omega) hl
  exact ⟨l, hrecords, hpresented, hpositioned⟩

/-- Otherwise the record behind the largest `int` has a negative position. -/
theorem end_le_of_allPositioned (h : Presents req n) (hall : AllPositioned impl req n) :
    (window req).start + cutRecs impl (window req) n ≤ 2147483648 := by
  have hsize := h.coe_size impl
  have hstart : (window req).start < 2147483648 := Util.toInt_lt _
  have hnarrow : Util.toInt ((window req).start + 0) = (window req).start := by
    rw [Int.add_zero]
    exact Util.toInt_eq (Util.le_toInt _) (Util.toInt_lt _)
  have hwrap : Util.toInt 2147483648 = -2147483648 := by decide
  obtain ⟨l, hrecords, -, hpositioned⟩ := hall.allAtOnce h
  by_contra hend
  obtain ⟨r, hr, hposition, -⟩ :=
    hpositioned.records (2147483648 - (window req).start).toNat (by omega)
  rw [records_finished, hrecords, newRecords, List.getElem?_map, List.getElem?_zipIdx,
    List.getElem?_replicate, if_pos (by omega)] at hr
  simp only [Option.map_some, Option.some.injEq, Prod.mk.injEq, hnarrow] at hr
  obtain ⟨-, rfl⟩ := hr
  have hsum : ((0 + (2147483648 - (window req).start).toNat : Nat) : Int) + (window req).start =
      2147483648 := by omega
  simp only [hsum, hwrap] at hposition
  omega

theorem lt_of_allPositioned (h : Presents req n) (hall : AllPositioned impl req n) :
    min ((window req).start + cutRecs impl (window req) n) n < 2147483648 := by
  have hsize := h.coe_size impl
  have hend := end_le_of_allPositioned h hall
  obtain ⟨l, -, hpresented, hpositioned⟩ := hall.allAtOnce h
  by_contra hlarge
  have hsum : (window req).start + cutRecs impl (window req) n = 2147483648 := by omega
  have hprev : (window req).start - 1 + cutRecs impl (window req) n = 2147483647 := by omega
  have hwrap : Util.toInt 2147483648 = -2147483648 := by decide
  have hint : Util.toInt 2147483647 = 2147483647 := by decide
  -- the next position is one, but not that of the response
  have hnext := hpositioned.next
  rw [finished] at hnext
  simp only [hpresented, hsize, hsum, hprev, hwrap, hint] at hnext
  rw [if_pos (by omega), if_pos (by omega)] at hnext
  cases hnext

/-- For every window from position 1 on, and every target: the records have their positions, and
the next one is right, if and only if either the position behind the window or the number of hits
is an `int`. -/
theorem presentRecords_positioned_iff (h : Presents req n) (hstart : 1 ≤ (window req).start) :
    AllPositioned impl req n ↔
      min ((window req).start + cutRecs impl (window req) n) n < 2147483648 :=
  ⟨lt_of_allPositioned h, allPositioned_of_lt h hstart⟩

/-! ## Windows of one -/

theorem presentRecords_positioned_two : AllPositioned unlimited (asksFor 2) 3 :=
  (presentRecords_positioned_iff presents_asksFor (by decide)).mpr (by decide)

/-- The last position that is an `int`, of a larger result set. -/
def lastInt : SearchRetrieveRequest := { asksFor 1 with startRecord := some 2147483647 }

/-- The next record is at position -2147483648. -/
theorem presentRecords_not_positioned :
    ((presentRecords unlimited lastInt (found [] 2147483648) 2147483648 [recordsAnswer 1]).map
        fun p => p.2.nextRecordPosition) = some (some (-2147483648)) ∧
      ¬ AllPositioned unlimited lastInt 2147483648 := by
  refine ⟨by decide, fun h => ?_⟩
  have hpresents : Presents lastInt 2147483648 := ⟨by decide, by decide⟩
  exact absurd (lt_of_allPositioned hpresents h) (by decide)

end SRUtoZ3950
end Metaproxy
