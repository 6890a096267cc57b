import Metaproxy.Lib.Filling
import Metaproxy.SRUtoZ3950.Impl

/-!
# SRUtoZ3950.Bounds

Does the loop of `z3950_present_request` end, and does it stay in its array of `max_recs` records?
The answers are a sequence without an end, of which the loop takes as many as it wants.

* `presentLoop_some`, `presentLoop_none`, `presentLoop_done` — one pass of the loop.
* `presentLoop_append` — a number of answers that it goes on with.
* `presentRecords_bounded_iff` — when all is well.
-/

namespace Metaproxy
namespace SRUtoZ3950

open Lib Z3950

variable {impl : Impl} {req : SearchRetrieveRequest} {start maxRecs num : Int}

/-! ## One pass -/

/-- The records of an answer that the loop goes on with. -/
def goesOn (a : Answer) : Option (NamePlusRecordList NamePlusRecord) :=
  match a.response with
  | some (.present (some (.databaseOrSurDiagnostics nprl))) => some nprl
  | _ => none

/-- How the loop ends with an answer that it does not go on with. -/
def presented (a : Answer) (num : Int) : Presented :=
  match a.response with
  | some (.present (some (.nonSurrogateDiagnostic d))) =>
    .diagnosed (.ofBib1 d.condition d.addinfo)
  | some (.present _) => .done num
  | _ => .failed (.systemTemporarilyUnavailable "")

/-- The package that is sent behind `num` records. -/
def sentFor (req : SearchRetrieveRequest) (start maxRecs num : Int) (a : Answer) : Forwarded :=
  ⟨.present (presentRequest req start maxRecs num), a.closed⟩

theorem presentLoop_done (h : ¬ num < maxRecs) (answers : List Answer) :
    presentLoop req start maxRecs answers num = some ⟨[], [], .done num⟩ := by
  cases answers with
  | nil => rw [presentLoop, if_neg h]
  | cons a answers => rw [presentLoop, if_neg h]

theorem goesOn_eq_some {a : Answer} {nprl : NamePlusRecordList NamePlusRecord}
    (h : goesOn a = some nprl) :
    a.response = some (.present (some (.databaseOrSurDiagnostics nprl))) := by
  rw [goesOn] at h
  split at h
  · rename_i nprl' hresponse
    obtain rfl := Option.some.inj h
    exact hresponse
  · cases h

theorem presentLoop_some (h : num < maxRecs) {a : Answer}
    {nprl : NamePlusRecordList NamePlusRecord} (ha : goesOn a = some nprl)
    (answers : List Answer) : presentLoop req start maxRecs (a :: answers) num =
      (presentLoop req start maxRecs answers (num + nprl.numRecords)).map fun l =>
        l.after (sentFor req start maxRecs num a) (newRecords req start num nprl.items) := by
  rw [presentLoop, if_pos h]
  simp only [goesOn_eq_some ha]
  rfl

theorem presentLoop_none (h : num < maxRecs) {a : Answer} (ha : goesOn a = none)
    (answers : List Answer) : presentLoop req start maxRecs (a :: answers) num =
      some ⟨[sentFor req start maxRecs num a], [], presented a num⟩ := by
  obtain ⟨closed, response⟩ := a
  rw [goesOn] at ha
  rw [presentLoop, if_pos h, presented]
  cases response with
  | none => rfl
  | some gdu =>
    cases gdu with
    | init result diagnostics => rfl
    | search resultCount records => rfl
    | other => rfl
    | present records =>
      cases records with
      | none => rfl
      | some records =>
        cases records with
        | databaseOrSurDiagnostics nprl => cases ha
        | nonSurrogateDiagnostic d => rfl
        | multipleNonSurDiagnostics ds => rfl

/-! ## Any number of them -/

variable {answers : Nat → Answer}

/-- How many records the answers have that the loop goes on with. -/
def amount (answers : Nat → Answer) (k : Nat) : Option Nat :=
  (goesOn (answers k)).map fun nprl => nprl.numRecords.toNat

def itemsAt (answers : Nat → Answer) (k : Nat) : List NamePlusRecord :=
  ((goesOn (answers k)).map fun nprl => nprl.items).getD []

/-- `num_records` counts the elements of what has been decoded. -/
def Counts (answers : Nat → Answer) : Prop :=
  ∀ k nprl, goesOn (answers k) = some nprl → nprl.numRecords = nprl.records.length

theorem amount_eq_some {k : Nat} {nprl : NamePlusRecordList NamePlusRecord}
    (h : goesOn (answers k) = some nprl) : amount answers k = some nprl.numRecords.toNat := by
  rw [amount, h]
  rfl

theorem exists_of_isSome_amount {k : Nat} (h : (amount answers k).isSome) :
    ∃ nprl, goesOn (answers k) = some nprl := by
  rw [amount, Option.isSome_map] at h
  exact Option.isSome_iff_exists.mp h

theorem length_itemsAt (hcounts : Counts answers) {k : Nat}
    {nprl : NamePlusRecordList NamePlusRecord} (h : goesOn (answers k) = some nprl) :
    (itemsAt answers k).length = nprl.numRecords.toNat := by
  have hlen := hcounts k nprl h
  rw [itemsAt, h]
  simp only [Option.map_some, Option.getD_some, NamePlusRecordList.items, List.length_take]
  omega

theorem filled_goesOn (hcounts : Counts answers) {k : Nat}
    {nprl : NamePlusRecordList NamePlusRecord} (h : goesOn (answers k) = some nprl) :
    ((filled (amount answers) k : Nat) : Int) + nprl.numRecords =
      (filled (amount answers) (k + 1) : Nat) := by
  have hlen := hcounts k nprl h
  rw [filled_succ, amount_eq_some h]
  simp only [Option.getD_some]
  omega

/-- The packages for the answers from `j` on. -/
def sentFrom (req : SearchRetrieveRequest) (start maxRecs : Int) (answers : Nat → Answer)
    (j m : Nat) : List Forwarded :=
  (List.range' j m).map fun k =>
    sentFor req start maxRecs (filled (amount answers) k : Nat) (answers k)

def recordsFrom (req : SearchRetrieveRequest) (start : Int) (answers : Nat → Answer) (j m : Nat) :
    List (Int × SruRecord) :=
  (List.range' j m).flatMap fun k =>
    newRecords req start (filled (amount answers) k : Nat) (itemsAt answers k)

theorem sentFrom_succ (j m : Nat) : sentFrom req start maxRecs answers j (m + 1) =
    sentFor req start maxRecs (filled (amount answers) j : Nat) (answers j) ::
      sentFrom req start maxRecs answers (j + 1) m := by
  rw [sentFrom, List.range'_succ, List.map_cons, sentFrom]

theorem recordsFrom_succ (j m : Nat) : recordsFrom req start answers j (m + 1) =
    newRecords req start (filled (amount answers) j : Nat) (itemsAt answers j) ++
      recordsFrom req start answers (j + 1) m := by
  rw [recordsFrom, List.range'_succ, List.flatMap_cons, recordsFrom]

/-- The answers that the loop goes on with, while records are missing. -/
theorem presentLoop_append (req : SearchRetrieveRequest) (start : Int) (hcounts : Counts answers) {total : Nat} {j m : Nat}
    (hwants : ∀ k, j ≤ k → k < j + m → Wants (amount answers) total k)
    (hgo : ∀ k, j ≤ k → k < j + m → (amount answers k).isSome) (rest : List Answer) :
    presentLoop req start total ((List.range' j m).map answers ++ rest)
        (filled (amount answers) j : Nat) =
      (presentLoop req start total rest (filled (amount answers) (j + m) : Nat)).map fun l =>
        { l with
          forwarded := sentFrom req start total answers j m ++ l.forwarded
          records := recordsFrom req start answers j m ++ l.records } := by
  induction m generalizing j with
  | zero =>
    rw [List.range'_zero, List.map_nil, List.nil_append]
    exact (Option.map_id_apply ..).symm
  | succ m ih =>
    obtain ⟨nprl, hnprl⟩ := exists_of_isSome_amount (hgo j (Nat.le_refl j) (by omega))
    have hbelow := (hwants j (Nat.le_refl j) (by omega)).below
    have hlt : ((filled (amount answers) j : Nat) : Int) < (total : Nat) := by omega
    have hitems : itemsAt answers j = nprl.items := by
      rw [itemsAt, hnprl]
      rfl
    have hnext : j + 1 + m = j + (m + 1) := by omega
    rw [List.range'_succ, List.map_cons, List.cons_append, presentLoop_some hlt hnprl,
      filled_goesOn hcounts hnprl, ih (fun k hk hkm => hwants k (by omega) (by omega))
        (fun k hk hkm => hgo k (by omega) (by omega)), Option.map_map, hnext]
    refine congrArg (fun f => Option.map f _) (funext fun l => ?_)
    simp only [Function.comp_apply, Loop.after, sentFrom_succ, recordsFrom_succ, hitems,
      List.cons_append, List.append_assoc]

theorem presentLoop_range (req : SearchRetrieveRequest) (start : Int) (hcounts : Counts answers)
    {total n : Nat}
    (hwants : ∀ k < n, Wants (amount answers) total k)
    (hgo : ∀ k < n, (amount answers k).isSome) (rest : List Answer) :
    presentLoop req start total ((List.range n).map answers ++ rest) 0 =
      (presentLoop req start total rest (filled (amount answers) n : Nat)).map fun l =>
        { l with
          forwarded := sentFrom req start total answers 0 n ++ l.forwarded
          records := recordsFrom req start answers 0 n ++ l.records } := by
  have happend := presentLoop_append req start (j := 0) (m := n) hcounts
    (fun k _ hk => hwants k (by omega)) (fun k _ hk => hgo k (by omega)) rest
  rw [← List.range_eq_range', Nat.zero_add] at happend
  exact happend

/-- The loop wants another answer after the first `n`. -/
theorem presentLoop_wants (hcounts : Counts answers) {total n : Nat}
    (h : Wants (amount answers) total n) :
    presentLoop req start total ((List.range n).map answers) 0 = none := by
  have hrange := presentLoop_range req start hcounts
    (fun k hk => h.of_le hk.le) h.goesOn []
  have hlt : ((filled (amount answers) n : Nat) : Int) < (total : Nat) := by
    have hbelow := h.below
    omega
  rw [List.append_nil, presentLoop, if_pos hlt] at hrange
  exact hrange

/-- The array is full. -/
theorem presentLoop_filled (req : SearchRetrieveRequest) (start : Int) (hcounts : Counts answers)
    {total n : Nat}
    (hwants : ∀ k < n, Wants (amount answers) total k)
    (hgo : ∀ k < n, (amount answers k).isSome) (hfull : total ≤ filled (amount answers) n)
    (rest : List Answer) :
    presentLoop req start total ((List.range n).map answers ++ rest) 0 =
      some ⟨sentFrom req start total answers 0 n, recordsFrom req start answers 0 n,
        .done (filled (amount answers) n : Nat)⟩ := by
  rw [presentLoop_range req start hcounts hwants hgo, presentLoop_done (by omega), Option.map_some]
  simp only [List.append_nil]

/-- The loop does not go on with answer `n`. -/
theorem presentLoop_stopped (req : SearchRetrieveRequest) (start : Int) (hcounts : Counts answers)
    {total n : Nat}
    (h : Wants (amount answers) total n) (hstop : goesOn (answers n) = none)
    (rest : List Answer) :
    presentLoop req start total ((List.range n).map answers ++ answers n :: rest) 0 =
      some ⟨sentFrom req start total answers 0 n ++
          [sentFor req start total (filled (amount answers) n : Nat) (answers n)],
        recordsFrom req start answers 0 n,
        presented (answers n) (filled (amount answers) n : Nat)⟩ := by
  have hlt : ((filled (amount answers) n : Nat) : Int) < (total : Nat) := by
    have hbelow := h.below
    omega
  rw [presentLoop_range req start hcounts (fun k hk => h.of_le hk.le) h.goesOn, presentLoop_none hlt hstop,
    Option.map_some]
  simp only [List.append_nil]

/-! ## The array -/

theorem indexes_newRecords (records : List NamePlusRecord) :
    (newRecords req start num records).map Prod.fst =
      (List.range records.length).map fun (i : Nat) => (i : Int) + num := by
  rw [newRecords, List.map_map, List.range_eq_range', ← List.zipIdx_map_snd, List.map_map]
  rfl

theorem recordsFrom_concat (n : Nat) : recordsFrom req start answers 0 (n + 1) =
    recordsFrom req start answers 0 n ++
      newRecords req start (filled (amount answers) n : Nat) (itemsAt answers n) := by
  rw [recordsFrom, List.range'_concat, List.flatMap_append, List.flatMap_singleton, Nat.zero_add,
    Nat.one_mul, recordsFrom]

/-- The records are written one behind the other. -/
theorem indexes_recordsFrom (req : SearchRetrieveRequest) (start : Int) (hcounts : Counts answers)
    {n : Nat}
    (hgo : ∀ k < n, (amount answers k).isSome) :
    (recordsFrom req start answers 0 n).map Prod.fst =
      (List.range (filled (amount answers) n)).map fun (i : Nat) => (i : Int) := by
  induction n with
  | zero => rfl
  | succ n ih =>
    obtain ⟨nprl, hnprl⟩ := exists_of_isSome_amount (hgo n (Nat.lt_succ_self n))
    rw [recordsFrom_concat, List.map_append, ih fun k hk => hgo k (by omega), indexes_newRecords,
      length_itemsAt hcounts hnprl, filled_succ, amount_eq_some hnprl, Option.getD_some,
      List.range_add, List.map_append, List.map_map]
    refine congrArg _ (List.map_congr_left fun i _ => ?_)
    simp only [Function.comp_apply, Int.natCast_add]
    omega

/-- The response of a search that went well. -/
def found (diagnostics : List Diagnostic) (numberOfRecords : Int) : SearchRetrieveResponse :=
  { SearchRetrieveResponse.new diagnostics with numberOfRecords := some numberOfRecords }

/-- Everything that was written is in the array, and `num_records` entries are. -/
structure Inside (size : Int) (res : SearchRetrieveResponse) : Prop where
  written : ∀ w ∈ res.records, 0 ≤ w.1 ∧ w.1 < size
  initialised : ∀ k : Int, 0 ≤ k → k < res.numRecords → ∃ r, (k, r) ∈ res.records

/-- The loop ends, with nothing written outside the array. -/
def Bounded (impl : Impl) (req : SearchRetrieveRequest) (diagnostics : List Diagnostic)
    (numberOfRecords : Int) (answers : Nat → Answer) : Prop :=
  ∃ n fs res, presentRecords impl req (found diagnostics numberOfRecords) numberOfRecords
    ((List.range n).map answers) = some (fs, res) ∧
      Inside (cutRecs impl (window req) numberOfRecords) res

/-- The request gets as far as the loop. -/
structure Presents (req : SearchRetrieveRequest) (numberOfRecords : Int) : Prop where
  wanted : (window req).maxRecs ≠ 0
  proper : windowDiagnostics req numberOfRecords = []

section Presents

variable {numberOfRecords : Int} {res : SearchRetrieveResponse}

theorem Presents.range (h : Presents req numberOfRecords) : 0 ≤ (window req).start ∧
    (window req).start ≤ numberOfRecords ∧ 0 < (window req).maxRecs := by
  obtain ⟨hwanted, hproper⟩ := h
  simp only [windowDiagnostics, List.append_eq_nil_iff] at hproper
  obtain ⟨⟨-, hstart⟩, hmax⟩ := hproper
  have hmax' : ¬ (window req).maxRecs < 0 := by
    intro hneg
    rw [if_pos hneg] at hmax
    cases hmax
  have hstart' : ¬ ((window req).start < 0 ∨ (window req).start > numberOfRecords) := by
    intro hout
    rw [if_pos hout] at hstart
    cases hstart
  omega

theorem Presents.eq (h : Presents req numberOfRecords) (l : List Answer) :
    presentRecords impl req res numberOfRecords l =
      (presentLoop req (window req).start (cutRecs impl (window req) numberOfRecords) l 0).map
        fun l => (l.forwarded, finished (window req) res numberOfRecords l) := by
  rw [presentRecords]
  simp only [h.wanted, if_false, h.proper, ne_eq, not_true_eq_false]

/-- The array is for the records of a window inside the result set. -/
theorem Presents.cutRecs_range (impl : Impl) (h : Presents req numberOfRecords) :
    0 < cutRecs impl (window req) numberOfRecords ∧
      cutRecs impl (window req) numberOfRecords < 2147483648 ∧
      (window req).start + cutRecs impl (window req) numberOfRecords - 1 ≤ numberOfRecords := by
  obtain ⟨hstart, hlast, hmax⟩ := h.range
  have hint : (window req).maxRecs < 2147483648 := Util.toInt_lt _
  unfold cutRecs
  simp only
  split
  · split
    · rw [Util.toInt_eq (by omega) (by omega)]
      omega
    · omega
  · split
    · rw [Util.toInt_eq (by omega) (by omega)]
      omega
    · omega

/-- Nothing is sent before the loop. -/
theorem presentRecords_of_not_presents (impl : Impl) (res : SearchRetrieveResponse)
    (h : ¬ Presents req numberOfRecords) (l : List Answer) : ∃ diagnostics, presentRecords impl req res numberOfRecords l =
      some ([], { res with diagnostics := res.diagnostics ++ diagnostics }) := by
  rw [presentRecords]
  simp only
  split
  · exact ⟨[], by rw [List.append_nil]⟩
  · rename_i hwanted
    split
    · exact ⟨_, rfl⟩
    · rename_i hproper
      exact absurd ⟨hwanted, not_not.mp hproper⟩ h

end Presents

/-- The size of the array. -/
def size (impl : Impl) (req : SearchRetrieveRequest) (numberOfRecords : Int) : Nat :=
  (cutRecs impl (window req) numberOfRecords).toNat

theorem Presents.coe_size {n : Int} (impl : Impl) (h : Presents req n) :
    ((size impl req n : Nat) : Int) = cutRecs impl (window req) n := by
  have hpos := (h.cutRecs_range impl).1
  rw [size]
  omega

section Bounded

variable {diagnostics : List Diagnostic} {numberOfRecords : Int}

theorem records_finished {res : SearchRetrieveResponse} (w : Window) (l : Loop) :
    (finished w res numberOfRecords l).records = l.records := by
  rw [finished]
  split <;> rfl

/-- Only a loop that has come to its end counts its records. -/
theorem numRecords_finished (diagnostics : List Diagnostic) (numberOfRecords : Int) (w : Window)
    (l : Loop) :
    (finished w (found diagnostics numberOfRecords) numberOfRecords l).numRecords = 0 ∨
      l.presented = .done (finished w (found diagnostics numberOfRecords) numberOfRecords
        l).numRecords := by
  rw [finished]
  split
  · exact .inl rfl
  · exact .inl rfl
  · rename_i num hnum
    exact .inr hnum

theorem presented_eq_done {a : Answer} {num' : Int} (h : presented a num = .done num') :
    num' = num := by
  rw [presented] at h
  split at h
  · cases h
  · cases h
    rfl
  · cases h

/-- The loop has ended after the records of `n` answers. -/
theorem inside_finished (hcounts : Counts answers) {total n : Nat}
    (hgo : ∀ k < n, (amount answers k).isSome) (hfits : filled (amount answers) n ≤ total)
    {l : Loop} (hrecords : l.records = recordsFrom req start answers 0 n)
    (hdone : ∀ num, l.presented = .done num → num = (filled (amount answers) n : Nat))
    (w : Window) :
    Inside total (finished w (found diagnostics numberOfRecords) numberOfRecords l) := by
  have hindexes := indexes_recordsFrom req start hcounts hgo
  constructor
  · intro w' hw'
    rw [records_finished, hrecords] at hw'
    have hmem := List.mem_map_of_mem (f := Prod.fst) hw'
    rw [hindexes, List.mem_map] at hmem
    obtain ⟨i, hi, heq⟩ := hmem
    have hlt := List.mem_range.mp hi
    omega
  · intro k hk hlt
    rw [records_finished, hrecords]
    rcases numRecords_finished diagnostics numberOfRecords w l with hzero | hpresented
    · omega
    · have hnum := hdone _ hpresented
      have hmem : k ∈ (recordsFrom req start answers 0 n).map Prod.fst := by
        rw [hindexes]
        exact List.mem_map.mpr ⟨k.toNat, List.mem_range.mpr (by omega), by omega⟩
      obtain ⟨r, hr, rfl⟩ := List.mem_map.mp hmem
      exact ⟨r.2, hr⟩

theorem bounded_of_fits (hcounts : Counts answers) (h : Presents req numberOfRecords)
    (hover : ¬ Overruns (amount answers) (size impl req numberOfRecords))
    (hstalls : ¬ Stalls (amount answers) (size impl req numberOfRecords)) :
    Bounded impl req diagnostics numberOfRecords answers := by
  have hpos := (h.cutRecs_range impl).1
  have hsize := h.coe_size impl
  obtain ⟨n, hwants, hlast⟩ := exists_last hstalls (by omega)
  have hfits : filled (amount answers) n ≤ size impl req numberOfRecords := hwants.below.le
  have happend : (List.range (n + 1)).map answers =
      (List.range n).map answers ++ [answers n] := by
    rw [List.range_succ, List.map_append, List.map_singleton]
  refine ⟨n + 1, ?_⟩
  simp only [h.eq, ← hsize]
  cases ha : goesOn (answers n) with
  | some nprl =>
    have hgo : ∀ k < n + 1, (amount answers k).isSome := by
      intro k hk
      rcases Nat.lt_succ_iff_lt_or_eq.mp hk with hk | rfl
      · exact hwants.goesOn k hk
      · rw [amount_eq_some ha]
        rfl
    have hfull : size impl req numberOfRecords ≤ filled (amount answers) (n + 1) := by
      by_contra hlt
      exact hlast ⟨hgo, by omega⟩
    have hle : filled (amount answers) (n + 1) ≤ size impl req numberOfRecords := by
      rw [filled_succ, amount_eq_some ha, Option.getD_some]
      by_contra hlt
      exact hover ⟨n, _, hwants, amount_eq_some ha, by omega⟩
    have hloop := presentLoop_filled req (window req).start hcounts
      (fun k hk => hwants.of_le (by omega)) hgo hfull []
    rw [List.append_nil] at hloop
    refine ⟨_, _, by rw [hloop, Option.map_some], ?_⟩
    refine inside_finished hcounts hgo hle rfl (fun num hnum => ?_) _
    cases hnum
    rfl
  | none =>
    have hloop := presentLoop_stopped req (window req).start hcounts hwants ha []
    rw [← happend] at hloop
    refine ⟨_, _, by rw [hloop, Option.map_some], ?_⟩
    exact inside_finished hcounts hwants.goesOn hfits rfl (fun num hnum => presented_eq_done hnum) _

theorem fits_of_bounded (hcounts : Counts answers) (h : Presents req numberOfRecords)
    (hbounded : Bounded impl req diagnostics numberOfRecords answers) :
    ¬ Overruns (amount answers) (size impl req numberOfRecords) ∧
      ¬ Stalls (amount answers) (size impl req numberOfRecords) := by
  have hpos := (h.cutRecs_range impl).1
  have hsize := h.coe_size impl
  obtain ⟨n, fs, res, hres, hinside⟩ := hbounded
  rw [h.eq, ← hsize] at hres
  rw [← hsize] at hinside
  obtain ⟨l, hl, heq⟩ := Option.map_eq_some_iff.mp hres
  cases heq
  have hended : ¬ Wants (amount answers) (size impl req numberOfRecords) n := by
    intro hwants
    rw [presentLoop_wants hcounts hwants] at hl
    cases hl
  refine ⟨?_, fun hstalls => hended (hstalls.wants n)⟩
  rintro ⟨k, a, hwants, ha, hlt⟩
  have hkn : k < n := by
    by_contra hle
    exact hended (hwants.of_le (by omega))
  have hsplit : (List.range n).map answers = (List.range (k + 1)).map answers ++
      (List.range' (k + 1) (n - (k + 1))).map answers := by
    have happend := List.range'_append_1 (s := 0) (m := k + 1) (n := n - (k + 1))
    rw [Nat.zero_add, Nat.add_sub_cancel' hkn] at happend
    rw [← List.map_append, List.range_eq_range', List.range_eq_range', happend]
  have hgo : ∀ j < k + 1, (amount answers j).isSome := by
    intro j hj
    rcases Nat.lt_succ_iff_lt_or_eq.mp hj with hj | rfl
    · exact hwants.goesOn j hj
    · rw [ha]
      rfl
  have hfilled : filled (amount answers) (k + 1) = filled (amount answers) k + a := by
    rw [filled_succ, ha]
    rfl
  rw [hsplit, presentLoop_filled req (window req).start hcounts (fun j hj => hwants.of_le (by omega)) hgo (by omega)] at hl
  obtain rfl := Option.some.inj hl
  -- the first record behind the array
  have hmem : ((size impl req numberOfRecords : Nat) : Int) ∈
      (recordsFrom req (window req).start answers 0 (k + 1)).map Prod.fst := by
    rw [indexes_recordsFrom req (window req).start hcounts hgo]
    exact List.mem_map.mpr ⟨_, List.mem_range.mpr (by omega), rfl⟩
  obtain ⟨w, hw, hindex⟩ := List.mem_map.mp hmem
  have hbound := (hinside.written w (by rw [records_finished]; exact hw)).2
  omega

/-- For every window and sequence of answers: the loop ends, writes nothing outside the array and
counts no record that was not written, if and only if no answer has more records than are missing,
and they do not come to be empty for ever. -/
theorem presentRecords_bounded_iff (hcounts : Counts answers) :
    Bounded impl req diagnostics numberOfRecords answers ↔
      (Presents req numberOfRecords →
        ¬ Overruns (amount answers) (size impl req numberOfRecords) ∧
        ¬ Stalls (amount answers) (size impl req numberOfRecords)) := by
  by_cases h : Presents req numberOfRecords
  · rw [forall_prop_of_true h]
    exact ⟨fits_of_bounded hcounts h, fun hfits => bounded_of_fits hcounts h hfits.1 hfits.2⟩
  · refine iff_of_true ?_ fun hpresents => absurd hpresents h
    obtain ⟨diagnostics', heq⟩ :=
      presentRecords_of_not_presents impl (found diagnostics numberOfRecords) h []
    refine ⟨0, _, _, heq, ?_, ?_⟩
    · intro w hw
      cases hw
    · intro k hk hlt
      have hnum : (found diagnostics numberOfRecords).numRecords = 0 := rfl
      simp only [hnum] at hlt
      omega

end Bounded

/-! ## Targets that do not keep to it -/

/-- Any record. -/
def anyRecord : NamePlusRecord := .databaseRecord (some Oid.xml) none []

def recordsAnswer (number : Nat) : Answer :=
  ⟨false, some (.present (some
    (.databaseOrSurDiagnostics ⟨number, List.replicate number anyRecord⟩)))⟩

/-- `maximumRecords` from the first record on. -/
def asksFor (maximumRecords : Int) : SearchRetrieveRequest :=
  ⟨some "a", "cql", none, none, none, some maximumRecords, none, none, false, none, none⟩

/-- Without a maximum. -/
def unlimited : Impl := ⟨0, fun _ => none, fun s => s, fun _ => none⟩

theorem counts_recordsAnswer (number : Nat → Nat) :
    Counts fun k => recordsAnswer (number k) := by
  intro k nprl h
  obtain rfl := Option.some.inj h
  exact congrArg Int.ofNat List.length_replicate.symm

theorem amount_recordsAnswer (number : Nat → Nat) (k : Nat) :
    amount (fun k => recordsAnswer (number k)) k = some (number k) := rfl

theorem presents_asksFor : Presents (asksFor 2) 3 := ⟨by decide, by decide⟩

/-- Two records that come one by one. -/
theorem presentRecords_bounded_two : Bounded unlimited (asksFor 2) [] 3 fun _ => recordsAnswer 1 := by
  refine (presentRecords_bounded_iff (counts_recordsAnswer fun _ => 1)).mpr fun _ => ⟨?_, ?_⟩
  · rintro ⟨n, a, hwants, ha, hlt⟩
    rw [amount_recordsAnswer fun _ => 1] at ha
    obtain rfl := Option.some.inj ha
    have hbelow := hwants.below
    omega
  · rintro ⟨n, -, hempty⟩
    have hn := hempty n (Nat.le_refl n)
    rw [amount_recordsAnswer fun _ => 1] at hn
    cases hn

/-- No records for ever, and a record too many. -/
theorem presentRecords_not_bounded :
    (¬ Bounded unlimited (asksFor 2) [] 3 fun _ => recordsAnswer 0) ∧
      ¬ Bounded unlimited (asksFor 2) [] 3 fun _ => recordsAnswer 3 := by
  have hwants : ∀ answers, Wants (amount answers) (size unlimited (asksFor 2) 3) 0 := fun answers =>
    ⟨fun k hk => absurd hk (Nat.not_lt_zero k), by rw [filled_zero]; decide⟩
  constructor
  · intro h
    refine (fits_of_bounded (counts_recordsAnswer fun _ => 0) presents_asksFor h).2 ⟨0, hwants _, ?_⟩
    intro k _
    exact amount_recordsAnswer (fun _ => 0) k
  · intro h
    exact (fits_of_bounded (counts_recordsAnswer fun _ => 3) presents_asksFor h).1
      ⟨0, 3, hwants _, amount_recordsAnswer (fun _ => 3) 0, by decide⟩

end SRUtoZ3950
end Metaproxy
