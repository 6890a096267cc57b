import Metaproxy.FilterSort.Lists
import Metaproxy.Lib.Filling

/-!
# FilterSort.Prefetching

`handle_records` with `pos` as the machine has it, for any answers of the target: a sequence without
an end, of which it takes as many as it wants.

* `loopInt_range` — what the loop sends, and when it ends.
* `loopInt_of_loop` — it is the loop of exact numbers while these are small.
* `handleRecords_prefetches_iff` — when it fetches ahead as it should.
-/

namespace Metaproxy
namespace FilterSort

open Lib Z3950

variable {ρ : Type*}

/-! ## The loop -/

/-- `end_pos - pos + 1` is an `int`. -/
def Prefetch.requestInt (p : Prefetch) (pos : Int) : PresentRequest :=
  { p.request pos with numberOfRecordsRequested := Util.toInt (p.endPos - pos + 1) }

def Prefetch.loopInt (p : Prefetch) :
    List (Answer ρ) → (i : Nat) → (pos : Int) → Option (List ρ × List PresentRequest)
  | [], i, pos => if i ≠ 0 ∧ pos ≤ p.endPos then none else some ([], [])
  | a :: answers, i, pos =>
    if i ≠ 0 ∧ pos ≤ p.endPos then
      let records := fetched a
      (p.loopInt answers records.length (Util.toInt (pos + records.length))).map fun r =>
        (records ++ r.1, p.requestInt pos :: r.2)
    else some ([], [])

def endPos (impl : Impl ρ) (s : ResultSet ρ) : Int :=
  if impl.prefetch > s.hitCount then Util.toInt s.hitCount else impl.prefetch

def handleRecordsInt (impl : Impl ρ) (records : Option (Records ρ)) (startPos : Int)
    (s : ResultSet ρ) (syntax_ : Option Oid) (comp : Option RecordComposition)
    (resultSetId : String) (answers : List (Answer ρ)) : Option (Handled ρ) :=
  let unchanged : Handled ρ := ⟨s, records.map (Records.map some), []⟩
  match records with
  | some (.databaseOrSurDiagnostics nprl) =>
    if startPos ≠ 1 then some unchanged
    else if s.recordLists.any fun l => l.cmp syntax_ then some unchanged
    else
      let first := nprl.items
      let p : Prefetch := ⟨endPos impl s, syntax_, comp, resultSetId⟩
      (p.loopInt answers first.length (Util.toInt (1 + first.length))).map fun r =>
        let rlp := RecordList.sort impl.score ⟨syntax_, first ++ r.1⟩
        { set := { s with recordLists := s.recordLists ++ [rlp] }
          records := some (.databaseOrSurDiagnostics
            ⟨nprl.numRecords, (List.range nprl.numRecords.toNat).map fun (i : Nat) =>
              rlp.get i impl.ascending⟩)
          sent := r.2 }
  | _ => some unchanged

theorem Prefetch.requestInt_start (p : Prefetch) (pos : Int) :
    (p.requestInt pos).resultSetStartPoint = pos := rfl

theorem Prefetch.requestInt_eq {p : Prefetch} {pos : Int} (hpos : 1 ≤ pos) (hle : pos ≤ p.endPos)
    (hend : p.endPos < 2147483648) : p.requestInt pos = p.request pos := by
  have hint : Util.toInt (p.endPos - pos + 1) = p.endPos - pos + 1 :=
    Util.toInt_eq (by omega) (by omega)
  rw [Prefetch.requestInt, hint]
  rfl

theorem Prefetch.loopInt_of_loop {p : Prefetch} (hend : p.endPos < 2147483648)
    {answers : List (Answer ρ)} {i : Nat} {pos : Int} {r : List ρ × List PresentRequest}
    (hpos : 1 ≤ pos) (h : p.loop answers i pos = some r) (hfits : pos + r.1.length < 2147483648) :
    p.loopInt answers i pos = some r := by
  induction answers generalizing i pos r with
  | nil => exact h
  | cons a answers ih =>
    rw [Prefetch.loop] at h
    rw [Prefetch.loopInt]
    split at h
    · rename_i hgo
      obtain ⟨r', hr', rfl⟩ := Option.map_eq_some_iff.mp h
      simp only [List.length_append, Int.natCast_add] at hfits
      have hnext : Util.toInt (pos + (fetched a).length) = pos + (fetched a).length :=
        Util.toInt_eq (by omega) (by omega)
      rw [if_pos hgo]
      simp only [hnext, ih (by omega) hr' (by omega), Option.map_some,
        Prefetch.requestInt_eq hpos hgo.2 hend]
    · rename_i hgo
      rw [if_neg hgo]
      exact h

/-- While `pos` is an `int`, nothing is different. -/
theorem handleRecordsInt_of_handleRecords {impl : Impl ρ} {s : ResultSet ρ} {syntax_ : Option Oid}
    {comp : Option RecordComposition} {resultSetId : String} {answers : List (Answer ρ)}
    {records : Option (Records ρ)} {startPos : Int} {h : Handled ρ}
    (hprefetch : impl.prefetch < 2147483648)
    (hh : handleRecords impl records startPos s syntax_ comp resultSetId answers = some h)
    (hfits : ∀ l ∈ h.set.recordLists, l.nprList.length < 2147483647) :
    handleRecordsInt impl records startPos s syntax_ comp resultSetId answers = some h := by
  by_cases hmakes : MakesList records startPos s syntax_
  · obtain ⟨⟨nprl, rfl⟩, rfl, hany⟩ := hmakes
    simp only [handleRecords, ne_eq, not_true_eq_false, if_false, hany, Bool.false_eq_true] at hh
    obtain ⟨r, hr, rfl⟩ := Option.map_eq_some_iff.mp hh
    have hlen := hfits _ (List.mem_append_right _ (List.mem_singleton_self _))
    simp only [RecordList.sort, List.length_insertionSort, List.length_append] at hlen
    have hstart : Util.toInt (1 + nprl.items.length) = 1 + nprl.items.length :=
      Util.toInt_eq (by omega) (by omega)
    have hend : (⟨endPos impl s, syntax_, comp, resultSetId⟩ : Prefetch).endPos < 2147483648 := by
      simp only [endPos]
      split
      · exact Util.toInt_lt _
      · exact hprefetch
    simp only [handleRecordsInt, ne_eq, not_true_eq_false, if_false, hany, Bool.false_eq_true,
      hstart]
    rw [Prefetch.loopInt_of_loop hend (by omega) hr (by omega)]
    rfl
  · rw [handleRecords_unchanged hh hmakes]
    unfold handleRecordsInt
    simp only
    split
    · split
      · rfl
      · rename_i hstart
        split
        · rfl
        · rename_i hany
          exact absurd ⟨⟨_, rfl⟩, Decidable.not_not.mp hstart, Bool.eq_false_iff.mpr hany⟩ hmakes
    · rfl

/-! ## Any number of answers -/

section Answers

variable {impl : Impl ρ} {s : ResultSet ρ} {first : List ρ} {answers : Nat → Answer ρ}
  {p : Prefetch} {endPos' : Int}

/-- What has come before answer `k`. -/
def received (first : List ρ) (answers : Nat → Answer ρ) (k : Nat) : List ρ :=
  first ++ (List.range k).flatMap fun j => fetched (answers j)

def nextPos (first : List ρ) (answers : Nat → Answer ρ) (k : Nat) : Int :=
  (received first answers k).length + 1

/-- The loop ends with an answer without records. -/
def amount (answers : Nat → Answer ρ) (k : Nat) : Option Nat :=
  if (fetched (answers k)).length = 0 then none else some (fetched (answers k)).length

theorem isSome_amount_iff (k : Nat) :
    (amount answers k).isSome = true ↔ (fetched (answers k)).length ≠ 0 := by
  rw [amount]
  split
  · rename_i hzero
    simp [hzero]
  · rename_i hne
    simp [hne]

theorem received_succ (k : Nat) :
    received first answers (k + 1) = received first answers k ++ fetched (answers k) := by
  rw [received, received, List.range_succ, List.flatMap_append, List.flatMap_singleton,
    List.append_assoc]

theorem nextPos_succ (k : Nat) : nextPos first answers (k + 1) =
    nextPos first answers k + (fetched (answers k)).length := by
  rw [nextPos, nextPos, received_succ, List.length_append]
  omega

theorem nextPos_eq_filled (k : Nat) :
    nextPos first answers k = first.length + filled (amount answers) k + 1 := by
  induction k with
  | zero =>
    rw [nextPos, received, List.range_zero, List.flatMap_nil, List.append_nil, filled_zero]
    omega
  | succ k ih =>
    rw [nextPos_succ, ih, filled_succ, amount]
    split
    · rename_i hzero
      rw [hzero]
      simp only [Option.getD_none]
      omega
    · simp only [Option.getD_some]
      omega

/-- The machine sends request `k`. -/
structure GoesInt (endPos' : Int) (first : List ρ) (answers : Nat → Answer ρ) (k : Nat) :
    Prop where
  nonempty : first ≠ []
  goesOn : ∀ j < k, (amount answers j).isSome
  below : ∀ j ≤ k, Util.toInt (nextPos first answers j) ≤ endPos'

theorem GoesInt.of_le {j k : Nat} (h : GoesInt endPos' first answers k) (hle : j ≤ k) :
    GoesInt endPos' first answers j where
  nonempty := h.nonempty
  goesOn i hi := h.goesOn i (Nat.lt_of_lt_of_le hi hle)
  below i hi := h.below i (Nat.le_trans hi hle)

/-- What is known in front of request `j`: `i` tells whether there were records so far. -/
structure Arrives (p : Prefetch) (first : List ρ) (answers : Nat → Answer ρ) (i j : Nat) :
    Prop where
  count : i ≠ 0 ↔ first ≠ [] ∧ ∀ k < j, (amount answers k).isSome
  below : ∀ k < j, Util.toInt (nextPos first answers k) ≤ p.endPos

theorem Arrives.goes_iff {i j : Nat} (h : Arrives p first answers i j) :
    (i ≠ 0 ∧ Util.toInt (nextPos first answers j) ≤ p.endPos) ↔
      GoesInt p.endPos first answers j := by
  rw [h.count]
  constructor
  · rintro ⟨⟨hfirst, hgo⟩, hle⟩
    refine ⟨hfirst, hgo, fun k hk => ?_⟩
    rcases Nat.eq_or_lt_of_le hk with rfl | hk
    · exact hle
    · exact h.below k hk
  · intro hgoes
    exact ⟨⟨hgoes.nonempty, hgoes.goesOn⟩, hgoes.below j (Nat.le_refl j)⟩

theorem Arrives.next {j : Nat} (h : GoesInt p.endPos first answers j) :
    Arrives p first answers (fetched (answers j)).length (j + 1) where
  count := by
    rw [← isSome_amount_iff]
    constructor
    · intro hsome
      refine ⟨h.nonempty, fun k hk => ?_⟩
      rcases Nat.lt_succ_iff_lt_or_eq.mp hk with hk | rfl
      · exact h.goesOn k hk
      · exact hsome
    · rintro ⟨-, hall⟩
      exact hall j (Nat.lt_succ_self j)
  below k hk := h.below k (Nat.le_of_lt_succ hk)

theorem Arrives.start : Arrives p first answers first.length 0 where
  count := by
    rw [ne_eq, List.length_eq_zero_iff]
    exact (and_iff_left fun k hk => absurd hk (Nat.not_lt_zero k)).symm
  below k hk := absurd hk (Nat.not_lt_zero k)

theorem toInt_nextPos_succ (k : Nat) :
    Util.toInt (Util.toInt (nextPos first answers k) + (fetched (answers k)).length) =
      Util.toInt (nextPos first answers (k + 1)) := by
  rw [Util.toInt_toInt_add, nextPos_succ]

theorem loopInt_range_eq_none {i j : Nat} (h : Arrives p first answers i j) {m : Nat}
    (hloop : p.loopInt ((List.range' j m).map answers) i (Util.toInt (nextPos first answers j)) =
      none) : GoesInt p.endPos first answers (j + m) := by
  induction m generalizing i j with
  | zero =>
    rw [List.range'_zero, List.map_nil, Prefetch.loopInt] at hloop
    split at hloop
    · rename_i hgo
      exact h.goes_iff.mp hgo
    · cases hloop
  | succ m ih =>
    rw [List.range'_succ, List.map_cons, Prefetch.loopInt] at hloop
    split at hloop
    · rename_i hgo
      simp only [toInt_nextPos_succ, Option.map_eq_none_iff] at hloop
      have hlast := ih (Arrives.next (h.goes_iff.mp hgo)) hloop
      rw [Nat.add_assoc, Nat.add_comm 1 m] at hlast
      exact hlast
    · cases hloop

/-- What is sent from request `j` on, and what is received. -/
theorem loopInt_range {i j : Nat} (h : Arrives p first answers i j) {m : Nat}
    {r : List ρ × List PresentRequest}
    (hloop : p.loopInt ((List.range' j m).map answers) i (Util.toInt (nextPos first answers j)) =
      some r) :
    ∃ n, r.2 = (List.range' j n).map (fun k =>
        p.requestInt (Util.toInt (nextPos first answers k))) ∧
      r.1 = (List.range' j n).flatMap (fun k => fetched (answers k)) ∧
      (∀ k, j ≤ k → k < j + n → GoesInt p.endPos first answers k) ∧
      ¬ GoesInt p.endPos first answers (j + n) := by
  induction m generalizing i j r with
  | zero =>
    rw [List.range'_zero, List.map_nil, Prefetch.loopInt] at hloop
    split at hloop
    · cases hloop
    · rename_i hgo
      cases hloop
      exact ⟨0, rfl, rfl, fun k hk hlt => by omega, fun hgoes => hgo (h.goes_iff.mpr hgoes)⟩
  | succ m ih =>
    rw [List.range'_succ, List.map_cons, Prefetch.loopInt] at hloop
    split at hloop
    · rename_i hgo
      have hgoes := h.goes_iff.mp hgo
      simp only [toInt_nextPos_succ] at hloop
      obtain ⟨r', hr', rfl⟩ := Option.map_eq_some_iff.mp hloop
      obtain ⟨n, hsent, hrecords, hall, hlast⟩ := ih (Arrives.next hgoes) hr'
      refine ⟨n + 1, ?_, ?_, ?_, ?_⟩
      · rw [List.range'_succ, List.map_cons, hsent]
      · rw [List.range'_succ, List.flatMap_cons, hrecords]
      · intro k hk hlt
        rcases Nat.eq_or_lt_of_le hk with rfl | hk
        · exact hgoes
        · exact hall k hk (by omega)
      · rw [Nat.add_assoc, Nat.add_comm 1 n] at hlast
        exact hlast
    · rename_i hgo
      cases hloop
      exact ⟨0, rfl, rfl, fun k hk hlt => by omega, fun hgoes => hgo (h.goes_iff.mpr hgoes)⟩

/-! ## Fetching ahead as it should be -/

/-- Sorted by the score, and records of one score as before. -/
structure StableSort (score : ρ → List UInt8) (records sorted : List ρ) : Prop where
  perm : sorted.Perm records
  pairwise : sorted.Pairwise (notBefore score)
  stable : ∀ r s, notBefore score r s → [r, s].Sublist records → [r, s].Sublist sorted

instance (score : ρ → List UInt8) : Std.Total (notBefore score) :=
  ⟨fun r s => List.le_total (score r) (score s)⟩

instance (score : ρ → List UInt8) : IsTrans ρ (notBefore score) :=
  ⟨fun _ _ _ h h' => List.le_trans h h'⟩

theorem stableSort_sort (score : ρ → List UInt8) (l : RecordList ρ) :
    StableSort score l.nprList (l.sort score).nprList where
  perm := List.perm_insertionSort _ _
  pairwise := List.pairwise_insertionSort _ _
  stable _ _ hrs hsub := List.pair_sublist_insertionSort hrs hsub

/-- Every request asks for what follows the records received so far and for nothing beyond the
smaller of prefetch and hit count; the list has all that was received, sorted; and the response has
the first records of it, as many as before. -/
structure Prefetches (impl : Impl ρ) (s : ResultSet ρ) (syntax_ : Option Oid) (first : List ρ)
    (answers : Nat → Answer ρ) (h : Handled ρ) : Prop where
  start : ∀ (k : Nat) req, h.sent[k]? = some req →
    req.resultSetStartPoint = (received first answers k).length + 1
  last : ∀ req ∈ h.sent, req.resultSetStartPoint ≤ min impl.prefetch s.hitCount ∧
    req.resultSetStartPoint + req.numberOfRecordsRequested - 1 ≤ min impl.prefetch s.hitCount
  list : ∃ sorted, StableSort impl.score (received first answers h.sent.length) sorted ∧
    h.set = { s with recordLists := s.recordLists ++ [⟨syntax_, sorted⟩] } ∧
    h.records = some (.databaseOrSurDiagnostics ⟨first.length,
      (((⟨syntax_, sorted⟩ : RecordList ρ).displayed impl.ascending).take first.length).map some⟩)

/-- Request `k` is sent, in exact numbers. -/
def Goes (impl : Impl ρ) (s : ResultSet ρ) (first : List ρ) (answers : Nat → Answer ρ) (k : Nat) :
    Prop :=
  first ≠ [] ∧ Wants (amount answers) (endPos impl s - first.length).toNat k

/-- The hit count is not taken for a larger one, and all records received are counted by an
`int`. -/
structure Fits (impl : Impl ρ) (s : ResultSet ρ) (first : List ρ) (answers : Nat → Answer ρ) :
    Prop where
  hits : -2147483648 ≤ s.hitCount ∨ first = [] ∨ Util.toInt s.hitCount ≤ first.length
  room : first.length < 2147483647
  later : ∀ k, Goes impl s first answers k → (received first answers (k + 1)).length < 2147483647

theorem Goes.nextPos_le {k : Nat} (h : Goes impl s first answers k) :
    nextPos first answers k ≤ endPos impl s := by
  have hbelow := h.2.below
  rw [nextPos_eq_filled]
  omega

theorem Goes.of_le {j k : Nat} (h : Goes impl s first answers k) (hle : j ≤ k) :
    Goes impl s first answers j :=
  ⟨h.1, h.2.of_le hle⟩

theorem one_le_nextPos (k : Nat) : 1 ≤ nextPos first answers k := by
  rw [nextPos]
  omega

section Range

variable (hprefetch : -2147483648 ≤ impl.prefetch ∧ impl.prefetch < 2147483648)

include hprefetch

theorem le_endPos : -2147483648 ≤ endPos impl s := by
  rw [endPos]
  split
  · exact Util.le_toInt _
  · exact hprefetch.1

theorem endPos_lt : endPos impl s < 2147483648 := by
  rw [endPos]
  split
  · exact Util.toInt_lt _
  · exact hprefetch.2

theorem Goes.goesInt {k : Nat} (h : Goes impl s first answers k) :
    GoesInt (endPos impl s) first answers k := by
  refine ⟨h.1, h.2.goesOn, fun j hj => ?_⟩
  have hle := (h.of_le hj).nextPos_le
  have hone : 1 ≤ nextPos first answers j := one_le_nextPos j
  have hend : endPos impl s < 2147483648 := endPos_lt hprefetch
  rw [Util.toInt_eq (by omega) (by omega)]
  exact hle

omit hprefetch in
theorem Fits.nextPos_lt (hfits : Fits impl s first answers) {k : Nat}
    (hgo : ∀ j < k, Goes impl s first answers j) : nextPos first answers k < 2147483648 := by
  rw [nextPos]
  cases k with
  | zero =>
    have hroom := hfits.room
    rw [received, List.range_zero, List.flatMap_nil, List.append_nil]
    omega
  | succ k =>
    have hlater := hfits.later k (hgo k (Nat.lt_succ_self k))
    omega

omit hprefetch in
theorem Fits.goes_of_goesInt (hfits : Fits impl s first answers) {k : Nat}
    (h : GoesInt (endPos impl s) first answers k) : Goes impl s first answers k := by
  induction k using Nat.strong_induction_on with
  | _ k ih =>
    have hlt := hfits.nextPos_lt fun j hj => ih j hj (h.of_le (Nat.le_of_lt hj))
    have hone : 1 ≤ nextPos first answers k := one_le_nextPos k
    have hle := h.below k (Nat.le_refl k)
    rw [Util.toInt_eq (by omega) (by omega), nextPos_eq_filled] at hle
    exact ⟨h.nonempty, h.goesOn, by omega⟩

end Range

/-- Every answer with records brings the end closer. -/
theorem exists_not_goes (impl : Impl ρ) (s : ResultSet ρ) (first : List ρ)
    (answers : Nat → Answer ρ) : ∃ k, ¬ Goes impl s first answers k := by
  have hstalls : ¬ Stalls (amount answers) (endPos impl s - first.length).toNat := by
    rintro ⟨n, -, hempty⟩
    have hzero := hempty n (Nat.le_refl n)
    rw [amount] at hzero
    split at hzero
    · cases hzero
    · rename_i hne
      exact hne (Option.some.inj hzero)
  obtain ⟨k, hk⟩ := ends_iff.mpr hstalls
  exact ⟨k, fun hgoes => hk hgoes.2⟩

/-! ## When it is -/

section Main

variable {syntax_ : Option Oid} {comp : Option RecordComposition} {resultSetId : String} {m : Nat}
  {h : Handled ρ}

/-- What `handle_records` makes of a first response and so many answers. -/
def fetchAhead (impl : Impl ρ) (s : ResultSet ρ) (syntax_ : Option Oid)
    (comp : Option RecordComposition) (resultSetId : String) (first : List ρ)
    (answers : Nat → Answer ρ) (m : Nat) : Option (Handled ρ) :=
  handleRecordsInt impl (some (.databaseOrSurDiagnostics ⟨first.length, first⟩)) 1 s syntax_ comp
    resultSetId ((List.range m).map answers)

/-- What it has made with `n` requests. -/
def madeOf (impl : Impl ρ) (s : ResultSet ρ) (syntax_ : Option Oid)
    (comp : Option RecordComposition) (resultSetId : String) (first : List ρ)
    (answers : Nat → Answer ρ) (n : Nat) : Handled ρ :=
  let rlp := RecordList.sort impl.score ⟨syntax_, received first answers n⟩
  let p : Prefetch := ⟨endPos impl s, syntax_, comp, resultSetId⟩
  { set := { s with recordLists := s.recordLists ++ [rlp] }
    records := some (.databaseOrSurDiagnostics
      ⟨first.length, (List.range first.length).map fun (i : Nat) => rlp.get i impl.ascending⟩)
    sent := (List.range n).map fun k => p.requestInt (Util.toInt (nextPos first answers k)) }

theorem fetchAhead_eq (hnew : s.recordLists.any (fun l => l.cmp syntax_) = false) :
    fetchAhead impl s syntax_ comp resultSetId first answers m =
      ((⟨endPos impl s, syntax_, comp, resultSetId⟩ : Prefetch).loopInt
        ((List.range' 0 m).map answers) first.length (Util.toInt (nextPos first answers 0))).map
      fun r =>
        ⟨{ s with recordLists := s.recordLists ++
            [RecordList.sort impl.score ⟨syntax_, first ++ r.1⟩] },
          some (.databaseOrSurDiagnostics ⟨first.length, (List.range first.length).map
            fun (i : Nat) => (RecordList.sort impl.score ⟨syntax_, first ++ r.1⟩).get i
              impl.ascending⟩), r.2⟩ := by
  have hitems : (⟨first.length, first⟩ : NamePlusRecordList ρ).items = first := by
    rw [NamePlusRecordList.items, Int.toNat_natCast, List.take_length]
  have hpos : nextPos first answers 0 = 1 + first.length := by
    rw [nextPos, received, List.range_zero, List.flatMap_nil, List.append_nil, Int.add_comm]
  rw [fetchAhead, List.range_eq_range', hpos]
  simp only [handleRecordsInt, ne_eq, not_true_eq_false, if_false, hnew, Bool.false_eq_true, hitems,
    Int.toNat_natCast]

theorem getElem?_map_range_iff {α : Type*} {f : Nat → α} {n k : Nat} {x : α} :
    ((List.range n).map f)[k]? = some x ↔ k < n ∧ f k = x := by
  rw [List.getElem?_map, Option.map_eq_some_iff]
  constructor
  · rintro ⟨j, hj, rfl⟩
    obtain ⟨hk, rfl⟩ := List.getElem?_eq_some_iff.mp hj
    rw [List.length_range] at hk
    rw [List.getElem_range]
    exact ⟨hk, rfl⟩
  · rintro ⟨hk, rfl⟩
    exact ⟨k, List.getElem?_range hk, rfl⟩

/-- What comes of it: requests for as long as the machine goes on. -/
theorem fetchAhead_eq_some (hnew : s.recordLists.any (fun l => l.cmp syntax_) = false)
    (hh : fetchAhead impl s syntax_ comp resultSetId first answers m = some h) :
    ∃ n, h = madeOf impl s syntax_ comp resultSetId first answers n ∧
      (∀ k < n, GoesInt (endPos impl s) first answers k) ∧
      ¬ GoesInt (endPos impl s) first answers n := by
  rw [fetchAhead_eq hnew] at hh
  obtain ⟨r, hr, rfl⟩ := Option.map_eq_some_iff.mp hh
  obtain ⟨n, hsent, hrecords, hall, hlast⟩ := loopInt_range Arrives.start hr
  rw [← List.range_eq_range'] at hsent hrecords
  refine ⟨n, ?_, fun k hk => hall k (Nat.zero_le k) (by omega), ?_⟩
  · rw [hsent, hrecords]
    rfl
  · rw [Nat.zero_add] at hlast
    exact hlast

/-- A request that was sent. -/
theorem madeOf_sent_iff {n k : Nat} {req : PresentRequest} :
    (madeOf impl s syntax_ comp resultSetId first answers n).sent[k]? = some req ↔
      k < n ∧ (⟨endPos impl s, syntax_, comp, resultSetId⟩ : Prefetch).requestInt
        (Util.toInt (nextPos first answers k)) = req :=
  getElem?_map_range_iff

theorem exists_fetchAhead (hnew : s.recordLists.any (fun l => l.cmp syntax_) = false)
    (hfits : Fits impl s first answers) :
    ∃ m h, fetchAhead impl s syntax_ comp resultSetId first answers m = some h := by
  obtain ⟨m, hm⟩ := exists_not_goes impl s first answers
  refine ⟨m, ?_⟩
  rw [← Option.isSome_iff_exists, Option.isSome_iff_ne_none]
  intro hnone
  rw [fetchAhead_eq hnew, Option.map_eq_none_iff] at hnone
  have hgoes := loopInt_range_eq_none Arrives.start hnone
  rw [Nat.zero_add] at hgoes
  exact hm (hfits.goes_of_goesInt hgoes)

/-- The end position is not beyond the hit count, when something is sent. -/
theorem Fits.endPos_le (hprefetch : impl.prefetch < 2147483648)
    (hfits : Fits impl s first answers) {k : Nat} (hgo : Goes impl s first answers k) :
    endPos impl s ≤ min impl.prefetch s.hitCount := by
  have hle := hgo.nextPos_le
  rw [nextPos_eq_filled, endPos] at hle
  rw [endPos]
  split
  · rename_i hgt
    rw [if_pos hgt] at hle
    rcases hfits.hits with hlo | hempty | hsmall
    · rw [Util.toInt_eq hlo (by omega)]
      omega
    · exact absurd hempty hgo.1
    · omega
  · omega

theorem prefetches_of_fits (hprefetch : -2147483648 ≤ impl.prefetch ∧ impl.prefetch < 2147483648)
    (hnew : s.recordLists.any (fun l => l.cmp syntax_) = false)
    (hfits : Fits impl s first answers)
    (hh : fetchAhead impl s syntax_ comp resultSetId first answers m = some h) :
    Prefetches impl s syntax_ first answers h := by
  obtain ⟨n, rfl, hall, -⟩ := fetchAhead_eq_some hnew hh
  have hgo : ∀ k < n, Goes impl s first answers k := fun k hk => hfits.goes_of_goesInt (hall k hk)
  have hend : endPos impl s < 2147483648 := endPos_lt hprefetch
  have hpos : ∀ k < n, Util.toInt (nextPos first answers k) = nextPos first answers k := by
    intro k hk
    have hone : 1 ≤ nextPos first answers k := one_le_nextPos k
    have hle := (hgo k hk).nextPos_le
    exact Util.toInt_eq (by omega) (by omega)
  refine ⟨?_, ?_, ?_⟩
  · intro k req hreq
    obtain ⟨hk, rfl⟩ := madeOf_sent_iff.mp hreq
    rw [Prefetch.requestInt_start, hpos k hk, nextPos]
  · intro req hreq
    obtain ⟨k, hreq⟩ := List.mem_iff_getElem?.mp hreq
    obtain ⟨hk, rfl⟩ := madeOf_sent_iff.mp hreq
    have hle := (hgo k hk).nextPos_le
    have hone : 1 ≤ nextPos first answers k := one_le_nextPos k
    have hmin := hfits.endPos_le hprefetch.2 (hgo k hk)
    rw [hpos k hk, Prefetch.requestInt_eq hone hle hend]
    refine ⟨Int.le_trans hle hmin, ?_⟩
    simp only [Prefetch.request]
    omega
  · have hlen := hfits.nextPos_lt hgo
    rw [nextPos] at hlen
    have hsorted := stableSort_sort impl.score ⟨syntax_, received first answers n⟩
    have hlength := hsorted.perm.length_eq
    have hfirst : first.length ≤ (received first answers n).length := by
      rw [received, List.length_append]
      exact Nat.le_add_right _ _
    simp only at hlength
    have hsent : (madeOf impl s syntax_ comp resultSetId first answers n).sent.length = n := by
      rw [madeOf, List.length_map, List.length_range]
    refine ⟨(RecordList.sort impl.score ⟨syntax_, received first answers n⟩).nprList, ?_, rfl, ?_⟩
    · rw [hsent]
      exact hsorted
    · have hget := map_get (l := RecordList.sort impl.score ⟨syntax_, received first answers n⟩)
        (by omega) (m := first.length) (by omega) impl.ascending
      rw [madeOf]
      simp only [hget]
      rfl

/-- Every request that the machine sends has a position that is an `int` and not beyond the end. -/
def SendsInside (impl : Impl ρ) (s : ResultSet ρ) (first : List ρ) (answers : Nat → Answer ρ) :
    Prop :=
  ∀ k, GoesInt (endPos impl s) first answers k → nextPos first answers k < 2147483648 ∧
    nextPos first answers k ≤ min impl.prefetch s.hitCount

theorem Prefetches.sendsInside (hnew : s.recordLists.any (fun l => l.cmp syntax_) = false)
    (hh : fetchAhead impl s syntax_ comp resultSetId first answers m = some h)
    (hpre : Prefetches impl s syntax_ first answers h) : SendsInside impl s first answers := by
  obtain ⟨n, rfl, -, hlast⟩ := fetchAhead_eq_some hnew hh
  intro k hk
  have hkn : k < n := by
    by_contra hge
    exact hlast (hk.of_le (Nat.le_of_not_lt hge))
  have hreq : (madeOf impl s syntax_ comp resultSetId first answers n).sent[k]? = some _ :=
    madeOf_sent_iff.mpr ⟨hkn, rfl⟩
  have hstart := hpre.start k _ hreq
  have hmin := (hpre.last _ (List.mem_of_getElem? hreq)).1
  rw [hstart] at hmin
  rw [Prefetch.requestInt_start, ← nextPos] at hstart
  refine ⟨?_, hmin⟩
  rw [← hstart]
  exact Util.toInt_lt _

theorem SendsInside.hits (hsends : SendsInside impl s first answers)
    (hprefetch : -2147483648 ≤ impl.prefetch ∧ impl.prefetch < 2147483648) :
    -2147483648 ≤ s.hitCount ∨ first = [] ∨ Util.toInt s.hitCount ≤ first.length := by
  by_contra hnot
  push Not at hnot
  obtain ⟨hlo, hne, hgt⟩ := hnot
  have heq : endPos impl s = Util.toInt s.hitCount := by
    rw [endPos, if_pos (by omega)]
  have hgo : Goes impl s first answers 0 := by
    refine ⟨hne, fun k hk => absurd hk (Nat.not_lt_zero k), ?_⟩
    rw [filled_zero, heq]
    omega
  have hle := (hsends 0 (hgo.goesInt hprefetch)).2
  have hone : 1 ≤ nextPos first answers 0 := one_le_nextPos 0
  omega

theorem SendsInside.room (hsends : SendsInside impl s first answers)
    (hprefetch : -2147483648 ≤ impl.prefetch ∧ impl.prefetch < 2147483648)
    (hfirst : first.length < 2147483648) : first.length < 2147483647 := by
  by_contra hnot
  have hend : -2147483648 ≤ endPos impl s := le_endPos hprefetch
  have hpos : nextPos first answers 0 = 2147483648 := by
    rw [nextPos_eq_filled, filled_zero]
    omega
  have hgo : GoesInt (endPos impl s) first answers 0 := by
    refine ⟨?_, fun k hk => absurd hk (Nat.not_lt_zero k), fun k hk => ?_⟩
    · rintro rfl
      rw [List.length_nil] at hnot
      omega
    · obtain rfl := Nat.le_zero.mp hk
      rw [hpos]
      exact hend
  have hlt := (hsends 0 hgo).1
  omega

/-- A position that leaves its type is taken for a negative one, and the machine goes on. -/
theorem Goes.goesInt_succ
    (hprefetch : -2147483648 ≤ impl.prefetch ∧ impl.prefetch < 2147483648) {k : Nat}
    (hcount : (fetched (answers k)).length < 2147483648) (hgo : Goes impl s first answers k)
    (hlt : nextPos first answers k < 2147483648)
    (hbig : 2147483648 ≤ nextPos first answers (k + 1)) :
    GoesInt (endPos impl s) first answers (k + 1) := by
  have hgoes := hgo.goesInt hprefetch
  have hnext : nextPos first answers (k + 1) =
      nextPos first answers k + (fetched (answers k)).length := nextPos_succ k
  refine ⟨hgo.1, fun j hj => ?_, fun j hj => ?_⟩
  · rcases Nat.lt_succ_iff_lt_or_eq.mp hj with hj | rfl
    · exact hgoes.goesOn j hj
    · rw [isSome_amount_iff]
      omega
  · rcases Nat.le_succ_iff.mp hj with hj | rfl
    · exact hgoes.below j hj
    · have hone : 1 ≤ nextPos first answers k := one_le_nextPos k
      have hle := hgo.nextPos_le
      rw [Util.toInt_eq_sub hbig (by omega)]
      omega

theorem SendsInside.later (hsends : SendsInside impl s first answers)
    (hprefetch : -2147483648 ≤ impl.prefetch ∧ impl.prefetch < 2147483648) {k : Nat}
    (hcount : (fetched (answers k)).length < 2147483648) (hgo : Goes impl s first answers k) :
    (received first answers (k + 1)).length < 2147483647 := by
  by_contra hnot
  have hbig : 2147483648 ≤ nextPos first answers (k + 1) := by
    rw [nextPos]
    omega
  have hlt := (hsends k (hgo.goesInt hprefetch)).1
  have hlt' := (hsends (k + 1) (hgo.goesInt_succ hprefetch hcount hlt hbig)).1
  omega

/-- When `pos` leaves its type, or stands beyond the hit count, another request tells. -/
theorem fits_of_prefetches (hprefetch : -2147483648 ≤ impl.prefetch ∧ impl.prefetch < 2147483648)
    (hnew : s.recordLists.any (fun l => l.cmp syntax_) = false)
    (hfirst : first.length < 2147483648) (hcounts : ∀ k, (fetched (answers k)).length < 2147483648)
    (hh : fetchAhead impl s syntax_ comp resultSetId first answers m = some h)
    (hpre : Prefetches impl s syntax_ first answers h) : Fits impl s first answers := by
  have hsends := hpre.sendsInside hnew hh
  exact ⟨hsends.hits hprefetch, hsends.room hprefetch hfirst,
    fun k hgo => hsends.later hprefetch (hcounts k) hgo⟩

/-- For every first response, prefetch and hit count, and every sequence of answers: the records are
fetched ahead and shown as they should be if and only if the hit count is not taken for a larger one
and the records received can be counted. -/
theorem handleRecords_prefetches_iff
    (hprefetch : -2147483648 ≤ impl.prefetch ∧ impl.prefetch < 2147483648)
    (hnew : s.recordLists.any (fun l => l.cmp syntax_) = false)
    (hfirst : first.length < 2147483648)
    (hcounts : ∀ k, (fetched (answers k)).length < 2147483648) :
    (∃ m h, fetchAhead impl s syntax_ comp resultSetId first answers m = some h ∧
      Prefetches impl s syntax_ first answers h) ↔ Fits impl s first answers := by
  constructor
  · rintro ⟨m, h, hh, hpre⟩
    exact fits_of_prefetches hprefetch hnew hfirst hcounts hh hpre
  · intro hfits
    obtain ⟨m, h, hh⟩ := exists_fetchAhead hnew hfits
    exact ⟨m, h, hh, prefetches_of_fits hprefetch hnew hfits hh⟩

end Main

end Answers

/-! ## A hit count -/

/-- Scores are bytes. -/
def ahead (prefetch : Int) : Impl Nat := ⟨prefetch, true, fun r => [UInt8.ofNat r]⟩

/-- A present response with these records. -/
def brings (records : List Nat) : Answer Nat :=
  ⟨false, some (.present { (PresentResponse.new : PresentResponse Nat) with
    numberOfRecordsReturned := records.length
    records := some (.databaseOrSurDiagnostics ⟨records.length, records⟩) })⟩

/-- Two records each time, of which the last are not wanted. -/
theorem handleRecords_prefetches_four : ∃ m h,
    fetchAhead (ahead 4) ⟨5, []⟩ none none "default" [9] (fun _ => brings [3, 6]) m = some h ∧
      Prefetches (ahead 4) ⟨5, []⟩ none [9] (fun _ => brings [3, 6]) h := by
  refine (handleRecords_prefetches_iff (by decide) rfl (by decide) fun _ => by decide).mpr
    ⟨.inl (by decide), by decide, fun k hgo => ?_⟩
  have hle : nextPos [9] (fun _ => brings [3, 6]) k ≤ 4 := hgo.nextPos_le
  have hcount : (fetched (brings [3, 6])).length = 2 := rfl
  rw [nextPos] at hle
  rw [received_succ, List.length_append, hcount]
  omega

/-- The hit count -4294967291 is taken for 5, and positions 2 to 5 are asked for. -/
theorem handleRecords_not_prefetches :
    (fetchAhead (ahead 20) ⟨-4294967291, []⟩ none none "default" [9] (fun _ => brings []) 1).map
        Handled.sent = some [⟨"default", 2, 4, none, none⟩] ∧
    ¬ ∃ m h, fetchAhead (ahead 20) ⟨-4294967291, []⟩ none none "default" [9]
        (fun _ => brings []) m = some h ∧
      Prefetches (ahead 20) ⟨-4294967291, []⟩ none [9] (fun _ => brings []) h := by
  refine ⟨by decide, ?_⟩
  rintro ⟨m, h, hh, hpre⟩
  have hfits := fits_of_prefetches (by decide) rfl (by decide) (fun _ => by decide) hh hpre
  exact absurd hfits.hits (by decide)

end FilterSort
end Metaproxy
