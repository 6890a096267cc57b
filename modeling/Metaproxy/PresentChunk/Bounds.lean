import Metaproxy.Lib.Filling
import Metaproxy.PresentChunk

/-!
# PresentChunk.Bounds

Does the loop of `chunk_it` end, and does it stay in its array? The answers are a sequence without
an end, of which the loop takes as many as it wants.

The array has as many elements as the client asks for, and nothing is checked: neither that this is
not negative, nor that an answer has no more records than are left, nor that it has any.

* `goesOn`, `chunkLoop_some`, `chunkLoop_none`, `chunkLoop_done` — one pass of the loop.
* `chunkLoop_eq_none_iff`, `chunkNpl_inside_iff` — what comes of a number of answers.
* `chunkIt_bounded_iff` — when all is well.
-/

namespace Metaproxy
namespace PresentChunk

open Lib Z3950

variable {ρ : Type*} {chunkNumber : Int} {closed : Bool} {pr : PresentRequest} {offset : Int}
  {npl : Npl ρ}

/-! ## One pass -/

/-- The records of an answer that the loop goes on with. -/
def goesOn (closed : Bool) (a : Answer ρ) : Option (NamePlusRecordList ρ) :=
  if closed || a.closed then none
  else
    match a.response with
    | some (.present pres) =>
      match pres.records with
      | some (.databaseOrSurDiagnostics nprl) => some nprl
      | _ => none
    | _ => none

/-- What an answer comes to that the loop does not go on with. -/
def returns (closed : Bool) (a : Answer ρ) : Result ρ :=
  if closed || a.closed then .closed else .response a.response

def Npl.put (npl : Npl ρ) (offset : Int) (nprl : NamePlusRecordList ρ) : Npl ρ :=
  { npl with
    written := npl.written ++ (List.range nprl.numRecords.toNat).map fun (i : Nat) =>
      (offset + i, nprl.records[i]?) }

theorem chunkLoop_done (h : ¬ offset < pr.numberOfRecordsRequested) (answers : List (Answer ρ)) :
    chunkLoop chunkNumber closed pr answers offset npl = some ⟨.built offset npl, [], []⟩ := by
  cases answers with
  | nil => rw [chunkLoop, if_neg h]
  | cons a answers => rw [chunkLoop, if_neg h]

theorem goesOn_eq_some {a : Answer ρ} {nprl : NamePlusRecordList ρ}
    (h : goesOn closed a = some nprl) : (closed || a.closed) = false ∧
      ∃ pres, a.response = some (.present pres) ∧
        pres.records = some (.databaseOrSurDiagnostics nprl) := by
  rw [goesOn] at h
  split at h
  · cases h
  · rename_i hopen
    refine ⟨Bool.eq_false_iff.mpr hopen, ?_⟩
    split at h
    · rename_i pres hresponse
      split at h
      · rename_i nprl' hrecords
        obtain rfl := Option.some.inj h
        exact ⟨pres, hresponse, hrecords⟩
      · cases h
    · cases h

theorem chunkLoop_some (h : offset < pr.numberOfRecordsRequested) {a : Answer ρ}
    {nprl : NamePlusRecordList ρ} (ha : goesOn closed a = some nprl) (answers : List (Answer ρ)) :
    chunkLoop chunkNumber closed pr (a :: answers) offset npl =
      (chunkLoop chunkNumber closed pr answers (offset + nprl.numRecords)
        (npl.put offset nprl)).map (Chunks.sends (chunkRequest chunkNumber pr offset) false) := by
  obtain ⟨hopen, pres, hresponse, hrecords⟩ := goesOn_eq_some ha
  rw [chunkLoop, if_pos h]
  simp only [hopen, Bool.false_eq_true, if_false, hresponse, hrecords]
  rfl

theorem chunkLoop_none (h : offset < pr.numberOfRecordsRequested) {a : Answer ρ}
    (ha : goesOn closed a = none) (answers : List (Answer ρ)) :
    chunkLoop chunkNumber closed pr (a :: answers) offset npl =
      some ⟨returns closed a, [chunkRequest chunkNumber pr offset], [closed || a.closed]⟩ := by
  obtain ⟨aClosed, response⟩ := a
  rw [goesOn] at ha
  rw [chunkLoop, if_pos h, returns]
  cases hclosed : closed || aClosed with
  | true => simp only [if_true]
  | false =>
    simp only [hclosed, Bool.false_eq_true, if_false] at ha ⊢
    cases response with
    | none => rfl
    | some gdu =>
      cases gdu with
      | search res => rfl
      | other encoding => rfl
      | present res =>
        cases hrecords : res.records with
        | none => simp only [hrecords]
        | some records =>
          cases records with
          | databaseOrSurDiagnostics nprl =>
            simp only [hrecords] at ha
            cases ha
          | nonSurrogateDiagnostic d => simp only [hrecords]
          | multipleNonSurDiagnostics ds => simp only [hrecords]

/-- The array after so many answers, however the loop goes on. -/
def chunkNpl (closed : Bool) (pr : PresentRequest) : List (Answer ρ) → Int → Npl ρ → Npl ρ
  | [], _, npl => npl
  | a :: answers, offset, npl =>
    if offset < pr.numberOfRecordsRequested then
      match goesOn closed a with
      | some nprl => chunkNpl closed pr answers (offset + nprl.numRecords) (npl.put offset nprl)
      | none => npl
    else npl

theorem chunkNpl_allocated (answers : List (Answer ρ)) :
    (chunkNpl closed pr answers offset npl).allocated = npl.allocated := by
  induction answers generalizing offset npl with
  | nil => rfl
  | cons a answers ih =>
    rw [chunkNpl]
    split
    · split
      · exact ih
      · rfl
    · rfl

/-- It is the array that the response is built of. -/
theorem chunkLoop_built {answers : List (Answer ρ)} {c : Chunks ρ} {offset' : Int} {npl' : Npl ρ}
    (h : chunkLoop chunkNumber closed pr answers offset npl = some c)
    (hc : c.result = .built offset' npl') : npl' = chunkNpl closed pr answers offset npl := by
  induction answers generalizing offset npl c with
  | nil =>
    rw [chunkLoop] at h
    split at h
    · cases h
    · cases h
      cases hc
      rfl
  | cons a answers ih =>
    rw [chunkNpl]
    by_cases hoffset : offset < pr.numberOfRecordsRequested
    · rw [if_pos hoffset]
      cases ha : goesOn closed a with
      | some nprl =>
        rw [chunkLoop_some hoffset ha] at h
        obtain ⟨c', hc', rfl⟩ := Option.map_eq_some_iff.mp h
        exact ih hc' hc
      | none =>
        rw [chunkLoop_none hoffset ha] at h
        cases h
        rw [returns] at hc
        split at hc <;> cases hc
    · rw [chunkLoop_done hoffset] at h
      cases h
      cases hc
      rw [if_neg hoffset]

/-! ## Any number of them -/

variable {answers : Nat → Answer ρ}

/-- How many records the answers have that the loop goes on with. -/
def amount (closed : Bool) (answers : Nat → Answer ρ) (k : Nat) : Option Nat :=
  (goesOn closed (answers k)).map fun nprl => nprl.numRecords.toNat

/-- What the client asks for. -/
def total (pr : PresentRequest) : Nat := pr.numberOfRecordsRequested.toNat

/-- `num_records` counts the elements of what has been decoded, as far as the loop takes it. -/
def Counts (closed : Bool) (pr : PresentRequest) (answers : Nat → Answer ρ) : Prop :=
  ∀ k nprl, Wants (amount closed answers) (total pr) k → goesOn closed (answers k) = some nprl →
    0 ≤ nprl.numRecords

theorem lt_requested_iff (n : Nat) : (n : Int) < pr.numberOfRecordsRequested ↔ n < total pr := by
  rw [total]
  omega

theorem amount_eq_some {k : Nat} {nprl : NamePlusRecordList ρ}
    (h : goesOn closed (answers k) = some nprl) :
    amount closed answers k = some nprl.numRecords.toNat := by
  rw [amount, h]
  rfl

theorem filled_goesOn (hcounts : Counts closed pr answers) {k : Nat} {nprl : NamePlusRecordList ρ}
    (hk : Wants (amount closed answers) (total pr) k)
    (h : goesOn closed (answers k) = some nprl) :
    ((filled (amount closed answers) k : Nat) : Int) + nprl.numRecords =
      (filled (amount closed answers) (k + 1) : Nat) := by
  have hnonneg := hcounts k nprl hk h
  rw [filled_succ, amount_eq_some h]
  simp only [Option.getD_some]
  omega

theorem isSome_amount (k : Nat) :
    (amount closed answers k).isSome = (goesOn closed (answers k)).isSome :=
  Option.isSome_map

theorem isSome_amount_succ {j : Nat} (hgo : ∀ k < j, (amount closed answers k).isSome)
    {nprl : NamePlusRecordList ρ} (ha : goesOn closed (answers j) = some nprl) :
    ∀ k < j + 1, (amount closed answers k).isSome := by
  intro k hk
  rcases Nat.lt_succ_iff_lt_or_eq.mp hk with hk | rfl
  · exact hgo k hk
  · rw [amount_eq_some ha]
    rfl

/-- The loop wants another answer. -/
theorem chunkLoop_range_eq_none_iff (hcounts : Counts closed pr answers) {j : Nat}
    (hgo : ∀ k < j, (amount closed answers k).isSome) (m : Nat) :
    chunkLoop chunkNumber closed pr ((List.range' j m).map answers)
      (filled (amount closed answers) j : Nat) npl = none ↔
        Wants (amount closed answers) (total pr) (j + m) := by
  induction m generalizing j npl with
  | zero =>
    rw [List.range'_zero, List.map_nil, chunkLoop, Nat.add_zero]
    constructor
    · intro h
      split at h
      · rename_i hlt
        exact ⟨hgo, (lt_requested_iff _).mp hlt⟩
      · cases h
    · intro h
      rw [if_pos ((lt_requested_iff _).mpr h.below)]
  | succ m ih =>
    rw [List.range'_succ, List.map_cons]
    by_cases hlt : ((filled (amount closed answers) j : Nat) : Int) < pr.numberOfRecordsRequested
    · have hj : Wants (amount closed answers) (total pr) j := ⟨hgo, (lt_requested_iff _).mp hlt⟩
      cases ha : goesOn closed (answers j) with
      | some nprl =>
        rw [chunkLoop_some hlt ha, Option.map_eq_none_iff, filled_goesOn hcounts hj ha,
          ih (isSome_amount_succ hgo ha), Nat.add_assoc, Nat.add_comm 1 m]
      | none =>
        rw [chunkLoop_none hlt ha]
        constructor
        · intro h
          cases h
        · intro h
          have hsome := h.goesOn j (by omega)
          rw [isSome_amount, ha] at hsome
          cases hsome
    · rw [chunkLoop_done hlt]
      constructor
      · intro h
        cases h
      · intro h
        have hj := (h.of_le (Nat.le_add_right j (m + 1))).below
        exact absurd ((lt_requested_iff _).mpr hj) hlt

theorem chunkIt_eq_none_iff (hcounts : Counts closed pr answers) (n : Nat) :
    chunkIt chunkNumber closed pr ((List.range n).map answers) = none ↔
      Wants (amount closed answers) (total pr) n := by
  have hgo : ∀ k < 0, (amount closed answers k).isSome := fun k hk => absurd hk (Nat.not_lt_zero k)
  have h : chunkLoop chunkNumber closed pr ((List.range' 0 n).map answers) 0
      ⟨pr.numberOfRecordsRequested, []⟩ = none ↔ _ := chunkLoop_range_eq_none_iff hcounts hgo n
  rw [← List.range_eq_range', Nat.zero_add] at h
  exact h

/-- The requests follow each other, as long as one is wanted. -/
theorem chunkLoop_range_sent (hcounts : Counts closed pr answers) {j m : Nat}
    (hgo : ∀ k < j, (amount closed answers k).isSome) {c : Chunks ρ}
    (h : chunkLoop chunkNumber closed pr ((List.range' j m).map answers)
      (filled (amount closed answers) j : Nat) npl = some c) :
    (∀ k < j + c.sent.length, j ≤ k → Wants (amount closed answers) (total pr) k) ∧
    c.sent = (List.range' j c.sent.length).map fun k =>
      chunkRequest chunkNumber pr (filled (amount closed answers) k : Nat) := by
  induction m generalizing j npl c with
  | zero =>
    rw [List.range'_zero, List.map_nil, chunkLoop] at h
    split at h
    · cases h
    · cases h
      exact ⟨fun k hk hjk => absurd hk (Nat.not_lt.mpr hjk), rfl⟩
  | succ m ih =>
    rw [List.range'_succ, List.map_cons] at h
    by_cases hlt : ((filled (amount closed answers) j : Nat) : Int) < pr.numberOfRecordsRequested
    · have hj : Wants (amount closed answers) (total pr) j := ⟨hgo, (lt_requested_iff _).mp hlt⟩
      cases ha : goesOn closed (answers j) with
      | some nprl =>
        rw [chunkLoop_some hlt ha, filled_goesOn hcounts hj ha] at h
        obtain ⟨c', hc', rfl⟩ := Option.map_eq_some_iff.mp h
        obtain ⟨hwants, hsent⟩ := ih (isSome_amount_succ hgo ha) hc'
        rw [Chunks.sends, List.length_cons, List.range'_succ, List.map_cons]
        refine ⟨?_, congrArg _ hsent⟩
        intro k hk hjk
        rcases Nat.eq_or_lt_of_le hjk with rfl | hjk
        · exact hj
        · exact hwants k (by omega) hjk
      | none =>
        rw [chunkLoop_none hlt ha] at h
        cases h
        refine ⟨?_, rfl⟩
        intro k hk hjk
        obtain rfl : j = k := Nat.le_antisymm hjk (Nat.le_of_lt_succ hk)
        exact hj
    · rw [chunkLoop_done hlt] at h
      cases h
      exact ⟨fun k hk hjk => absurd hk (Nat.not_lt.mpr hjk), rfl⟩

/-! ## Bounds -/

/-- Everything that was written is in the array. -/
def Npl.Inside (total : Int) (npl : Npl ρ) : Prop := ∀ w ∈ npl.written, 0 ≤ w.1 ∧ w.1 < total

theorem Npl.inside_put (hoffset : 0 ≤ offset) (hlt : offset < pr.numberOfRecordsRequested)
    (nprl : NamePlusRecordList ρ) :
    (npl.put offset nprl).Inside pr.numberOfRecordsRequested ↔
      npl.Inside pr.numberOfRecordsRequested ∧
        offset + nprl.numRecords.toNat ≤ pr.numberOfRecordsRequested := by
  simp only [Npl.Inside, Npl.put, List.mem_append, List.mem_map, List.mem_range]
  constructor
  · intro h
    refine ⟨fun w hw => h w (.inl hw), ?_⟩
    rcases Nat.eq_zero_or_pos nprl.numRecords.toNat with hzero | hpos
    · omega
    · -- the last one written
      have hlast := (h _ (.inr ⟨nprl.numRecords.toNat - 1, by omega, rfl⟩)).2
      simp only at hlast
      omega
  · rintro ⟨hnpl, hle⟩ w (hw | ⟨i, hi, rfl⟩)
    · exact hnpl w hw
    · simp only
      omega

theorem chunkNpl_range_inside_iff (hcounts : Counts closed pr answers) {j : Nat}
    (hgo : ∀ k < j, (amount closed answers k).isSome) (m : Nat) :
    (chunkNpl closed pr ((List.range' j m).map answers)
        (filled (amount closed answers) j : Nat) npl).Inside pr.numberOfRecordsRequested ↔
      npl.Inside pr.numberOfRecordsRequested ∧
        ∀ k a, j ≤ k → k < j + m → Wants (amount closed answers) (total pr) k →
          amount closed answers k = some a → filled (amount closed answers) k + a ≤ total pr := by
  induction m generalizing j npl with
  | zero =>
    rw [List.range'_zero, List.map_nil, chunkNpl]
    constructor
    · intro h
      exact ⟨h, fun k a hjk hk => by omega⟩
    · intro h
      exact h.1
  | succ m ih =>
    rw [List.range'_succ, List.map_cons, chunkNpl]
    by_cases hlt : ((filled (amount closed answers) j : Nat) : Int) < pr.numberOfRecordsRequested
    · rw [if_pos hlt]
      have hj : Wants (amount closed answers) (total pr) j := ⟨hgo, (lt_requested_iff _).mp hlt⟩
      cases ha : goesOn closed (answers j) with
      | some nprl =>
        simp only
        have hle : ((filled (amount closed answers) j : Nat) : Int) + nprl.numRecords.toNat ≤
            pr.numberOfRecordsRequested ↔
              filled (amount closed answers) j + nprl.numRecords.toNat ≤ total pr := by
          rw [total]
          omega
        rw [filled_goesOn hcounts hj ha, ih (isSome_amount_succ hgo ha),
          Npl.inside_put (by omega) hlt, hle, and_assoc]
        refine and_congr_right fun _ => ?_
        constructor
        · rintro ⟨hfirst, hrest⟩ k a hjk hk hwants hk'
          rcases Nat.eq_or_lt_of_le hjk with rfl | hjk
          · rw [amount_eq_some ha] at hk'
            obtain rfl := Option.some.inj hk'
            exact hfirst
          · exact hrest k a hjk (by omega) hwants hk'
        · intro h
          refine ⟨h j _ (Nat.le_refl j) (by omega) hj (amount_eq_some ha), ?_⟩
          intro k a hjk hk hwants hk'
          exact h k a (by omega) (by omega) hwants hk'
      | none =>
        simp only
        refine (and_iff_left ?_).symm
        intro k a hjk _ hwants hk
        rcases Nat.eq_or_lt_of_le hjk with rfl | hjk
        · rw [amount, ha] at hk
          cases hk
        · have hsome := hwants.goesOn j hjk
          rw [isSome_amount, ha] at hsome
          cases hsome
    · rw [if_neg hlt]
      refine (and_iff_left ?_).symm
      intro k a hjk _ hwants _
      exact absurd ((lt_requested_iff _).mpr (hwants.of_le hjk).below) hlt

/-- The array after `n` answers. -/
def nplAfter (closed : Bool) (pr : PresentRequest) (answers : Nat → Answer ρ) (n : Nat) : Npl ρ :=
  chunkNpl closed pr ((List.range n).map answers) 0 ⟨pr.numberOfRecordsRequested, []⟩

theorem nplAfter_inside_iff (hcounts : Counts closed pr answers) (n : Nat) :
    (nplAfter closed pr answers n).Inside pr.numberOfRecordsRequested ↔
      ∀ k a, k < n → Wants (amount closed answers) (total pr) k →
        amount closed answers k = some a → filled (amount closed answers) k + a ≤ total pr := by
  have hgo : ∀ k < 0, (amount closed answers k).isSome := fun k hk => absurd hk (Nat.not_lt_zero k)
  have hempty : (⟨pr.numberOfRecordsRequested, []⟩ : Npl ρ).Inside pr.numberOfRecordsRequested := by
    intro w hw
    cases hw
  have h : (chunkNpl closed pr ((List.range' 0 n).map answers) 0
      ⟨pr.numberOfRecordsRequested, []⟩).Inside pr.numberOfRecordsRequested ↔ _ :=
    chunkNpl_range_inside_iff hcounts hgo n
  rw [nplAfter, List.range_eq_range', h, and_iff_right hempty, Nat.zero_add]
  constructor
  · intro h k a
    exact h k a (Nat.zero_le k)
  · intro h k a _
    exact h k a

theorem inside_iff (hcounts : Counts closed pr answers) :
    (∀ n, (nplAfter closed pr answers n).Inside pr.numberOfRecordsRequested) ↔
      ¬ Overruns (amount closed answers) (total pr) := by
  simp only [nplAfter_inside_iff hcounts]
  constructor
  · rintro h ⟨k, a, hwants, ha, hlt⟩
    exact Nat.not_le.mpr hlt (h (k + 1) k a (Nat.lt_succ_self k) hwants ha)
  · intro h n k a _ hwants ha
    exact Nat.not_lt.mp fun hlt => h ⟨k, a, hwants, ha, hlt⟩

theorem ends_iff_not_stalls (hcounts : Counts closed pr answers) :
    (∃ n c, chunkIt chunkNumber closed pr ((List.range n).map answers) = some c) ↔
      ¬ Stalls (amount closed answers) (total pr) := by
  rw [← ends_iff]
  refine exists_congr fun n => ?_
  have hnone : chunkIt chunkNumber closed pr ((List.range n).map answers) = none ↔ _ :=
    chunkIt_eq_none_iff hcounts n
  rw [← hnone]
  exact Option.ne_none_iff_exists'.symm

/-- The loop ends, nothing is written outside the array, and this is not of negative size. -/
structure Bounded (chunkNumber : Int) (closed : Bool) (pr : PresentRequest)
    (answers : Nat → Answer ρ) : Prop where
  ends : ∃ n c, chunkIt chunkNumber closed pr ((List.range n).map answers) = some c
  inside : ∀ n, (nplAfter closed pr answers n).Inside pr.numberOfRecordsRequested
  allocated : ∀ n, 0 ≤ (nplAfter closed pr answers n).allocated

theorem chunkIt_bounded_iff (hcounts : Counts closed pr answers) :
    Bounded chunkNumber closed pr answers ↔
      0 ≤ pr.numberOfRecordsRequested ∧ ¬ Overruns (amount closed answers) (total pr) ∧
        ¬ Stalls (amount closed answers) (total pr) := by
  have hallocated : (∀ n, 0 ≤ (nplAfter closed pr answers n).allocated) ↔
      0 ≤ pr.numberOfRecordsRequested := by
    simp only [nplAfter, chunkNpl_allocated]
    exact forall_const Nat
  constructor
  · intro h
    exact ⟨hallocated.mp h.allocated, (inside_iff hcounts).mp h.inside,
      (ends_iff_not_stalls hcounts).mp h.ends⟩
  · rintro ⟨hsize, hover, hstalls⟩
    exact ⟨(ends_iff_not_stalls hcounts).mpr hstalls, (inside_iff hcounts).mpr hover,
      hallocated.mpr hsize⟩

/-! ## Targets that do not keep to it -/

/-- `number` records. -/
def recordsAnswer (number : Nat) : Answer Nat :=
  ⟨false, some (.present { (PresentResponse.new : PresentResponse Nat) with
    numberOfRecordsReturned := number
    records := some (.databaseOrSurDiagnostics ⟨number, List.range number⟩) })⟩

def asksFor (number : Int) : PresentRequest where
  resultSetId := "default"
  resultSetStartPoint := 1
  numberOfRecordsRequested := number
  preferredRecordSyntax := none
  recordComposition := none

theorem goesOn_recordsAnswer (number : Nat) :
    goesOn false (recordsAnswer number) = some ⟨number, List.range number⟩ := rfl

theorem counts_recordsAnswer (number : Nat → Nat) :
    Counts false pr fun k => recordsAnswer (number k) := by
  intro k nprl _ h
  rw [goesOn_recordsAnswer] at h
  obtain rfl := Option.some.inj h
  exact Int.natCast_nonneg _

theorem amount_recordsAnswer (number : Nat → Nat) (k : Nat) :
    amount false (fun k => recordsAnswer (number k)) k = some (number k) := by
  rw [amount, goesOn_recordsAnswer]
  rfl

theorem wants_zero {requested : Int} (h : 0 < requested) (answers : Nat → Answer Nat) :
    Wants (amount false answers) (total (asksFor requested)) 0 where
  goesOn k hk := absurd hk (Nat.not_lt_zero k)
  below := by
    rw [filled_zero, ← lt_requested_iff]
    exact h

/-- Two records that come one by one. -/
theorem chunkIt_bounded_two : Bounded 1 false (asksFor 2) fun _ => recordsAnswer 1 := by
  refine (chunkIt_bounded_iff (counts_recordsAnswer fun _ => 1)).mpr ⟨by decide, ?_, ?_⟩
  · rintro ⟨n, a, hwants, ha, hlt⟩
    rw [amount_recordsAnswer fun _ => 1] at ha
    obtain rfl := Option.some.inj ha
    have hbelow := hwants.below
    have htotal : total (asksFor 2) = 2 := rfl
    omega
  · rintro ⟨n, -, hempty⟩
    have hn := hempty n (Nat.le_refl n)
    rw [amount_recordsAnswer fun _ => 1] at hn
    cases hn

/-- No records for ever, a record too many, and a negative number asked for. -/
theorem chunkIt_not_bounded :
    (¬ Bounded 1 false (asksFor 1) fun _ => recordsAnswer 0) ∧
    (¬ Bounded 1 false (asksFor 1) fun _ => recordsAnswer 2) ∧
    ¬ Bounded 1 false (asksFor (-1)) fun _ => recordsAnswer 1 := by
  refine ⟨?_, ?_, ?_⟩
  · intro h
    refine (ends_iff_not_stalls (counts_recordsAnswer fun _ => 0)).mp h.ends ⟨0, ?_, ?_⟩
    · exact wants_zero (by decide) _
    · intro k _
      exact amount_recordsAnswer (fun _ => 0) k
  · intro h
    refine (inside_iff (counts_recordsAnswer fun _ => 2)).mp h.inside ⟨0, 2, ?_, ?_, ?_⟩
    · exact wants_zero (by decide) _
    · exact amount_recordsAnswer (fun _ => 2) 0
    · decide
  · intro h
    exact absurd (h.allocated 0) (by decide)

end PresentChunk
end Metaproxy
