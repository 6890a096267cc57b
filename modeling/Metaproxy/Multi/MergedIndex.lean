import Mathlib.Algebra.Order.Ring.Int
import Mathlib.Algebra.BigOperators.Group.List.Basic
import Metaproxy.Lib.Window
import Metaproxy.Multi.Scan

/-!
# Multi.MergedIndex

Scanning several indexes is scanning their union.

* `Index.answer` — the rule by which a backend answers: up to `P - 1` terms right below the start
  term, then terms from it on, `N` in all.
* `insertTerm_tally` — one entry counted in; `gather_spec` — all entries of all backends.
* `scanResponse_eq` — how the two lists fill the response.
* `scan_merged` — the response is the answer of the union of the indexes.
-/

namespace Metaproxy
namespace Multi

open Lib

/-! ## Indexes -/

structure Index where
  terms : Finset Term
  count : Term → Int
  nonempty : ∀ t ∈ terms, t.length ≠ 0

namespace Index

def entry (idx : Index) (t : Term) : Entry := .termInfo ⟨some t, some (idx.count t)⟩

/-- The last terms below `T`, greatest first. -/
def lower (idx : Index) (T : Term) (P : Nat) : List Term :=
  ((idx.terms.filter (· < T)).sort (· ≥ ·)).take (P - 1)

def upper (idx : Index) (T : Term) (N P : Nat) : List Term :=
  ((idx.terms.filter (T ≤ ·)).sort (· ≤ ·)).take (N - (idx.lower T P).length)

def answer (idx : Index) (T : Term) (N P : Nat) : List Entry :=
  ((idx.lower T P).reverse ++ idx.upper T N P).map idx.entry

/-- The union of indexes, the counts of equal terms added up. -/
def union (idxs : List Index) : Index where
  terms := idxs.foldr (fun idx s => idx.terms ∪ s) ∅
  count t := (idxs.map fun idx => if t ∈ idx.terms then idx.count t else 0).sum
  nonempty := by
    intro t ht
    induction idxs with
    | nil => simp at ht
    | cons idx idxs ih =>
      rcases Finset.mem_union.mp ht with ht | ht
      · exact idx.nonempty t ht
      · exact ih ht

theorem mem_union {idxs : List Index} {t : Term} :
    t ∈ (union idxs).terms ↔ ∃ idx ∈ idxs, t ∈ idx.terms := by
  simp only [union]
  induction idxs with
  | nil => simp
  | cons idx idxs ih => simp [ih]

end Index

/-- A response that answers the request by the rule. An empty list of entries may be absent. -/
def Answers (idx : Index) (req : ScanRequest) (response : Response) : Prop :=
  ∃ res, response = .scan res ∧
    res.positionOfTerm =
      some (((idx.lower req.term (req.preferredPositionInResponse.getD 1).toNat).length : Int) + 1) ∧
    res.entries.bind ListEntries.nonsurrogateDiagnostics = none ∧
    (res.entries.bind ListEntries.entries).getD [] =
      idx.answer req.term req.numberOfTermsRequested.toNat
        (req.preferredPositionInResponse.getD 1).toNat

/-! ## Counting in -/

def total (l : List ScanTermInfo) (t : Term) : Int :=
  ((l.filter fun it => it.normTerm = t).map ScanTermInfo.count).sum

theorem total_cons (it : ScanTermInfo) (l : List ScanTermInfo) (t : Term) :
    total (it :: l) t = (if it.normTerm = t then it.count else 0) + total l t := by
  by_cases h : it.normTerm = t
  · simp [total, h]
  · simp [total, h]

/-- `l` has the terms of a finite set in the order `lt`, with their counts. -/
structure Tally (lt : Term → Term → Prop) (l : List ScanTermInfo) (terms : Finset Term)
    (count : Term → Int) : Prop where
  sorted : (l.map ScanTermInfo.normTerm).Pairwise lt
  mem : ∀ t, t ∈ l.map ScanTermInfo.normTerm ↔ t ∈ terms
  totals : ∀ t, total l t = count t

section Insert

variable (lt : Term → Term → Prop) [DecidableRel lt]

theorem mem_insertTerm (my : ScanTermInfo) (l : List ScanTermInfo) (t : Term) :
    t ∈ (insertTerm lt my l).map ScanTermInfo.normTerm ↔
      t = my.normTerm ∨ t ∈ l.map ScanTermInfo.normTerm := by
  induction l with
  | nil => simp [insertTerm]
  | cons it rest ih =>
    rw [insertTerm]
    split_ifs with hlt heq
    · simp only [List.map_cons, List.mem_cons, ih]
      tauto
    · simp only [List.map_cons, List.mem_cons, heq]
      tauto
    · simp only [List.map_cons, List.mem_cons]

theorem total_insertTerm (my : ScanTermInfo) (l : List ScanTermInfo) (t : Term) :
    total (insertTerm lt my l) t = total l t + if my.normTerm = t then my.count else 0 := by
  induction l with
  | nil =>
    rw [insertTerm, total_cons]
    exact Int.add_comm _ _
  | cons it rest ih =>
    by_cases hlt : lt it.normTerm my.normTerm
    · rw [insertTerm, if_pos hlt, total_cons, ih, total_cons, Int.add_assoc]
    rw [insertTerm, if_neg hlt]
    by_cases heq : my.normTerm = it.normTerm
    · rw [if_pos heq, total_cons, total_cons, heq]
      by_cases ht : it.normTerm = t
      · simp only [ht, if_true]
        omega
      · simp only [ht, if_false]
        omega
    · rw [if_neg heq, total_cons my]
      exact Int.add_comm _ _

theorem sorted_insertTerm [IsStrictTotalOrder Term lt] (my : ScanTermInfo) {l : List ScanTermInfo}
    (h : (l.map ScanTermInfo.normTerm).Pairwise lt) :
    ((insertTerm lt my l).map ScanTermInfo.normTerm).Pairwise lt := by
  induction l with
  | nil => simp [insertTerm]
  | cons it rest ih =>
    rw [List.map_cons, List.pairwise_cons] at h
    rw [insertTerm]
    split_ifs with hlt heq
    · rw [List.map_cons, List.pairwise_cons]
      refine ⟨fun t ht => ?_, ih h.2⟩
      rcases (mem_insertTerm lt my rest t).mp ht with rfl | ht
      · exact hlt
      · exact h.1 t ht
    · rw [List.map_cons, List.pairwise_cons]
      exact h
    · have hmy : lt my.normTerm it.normTerm := by
        rcases trichotomous_of lt my.normTerm it.normTerm with h' | h' | h'
        · exact h'
        · exact absurd h' heq
        · exact absurd h' hlt
      simp only [List.map_cons, List.pairwise_cons, List.mem_cons]
      refine ⟨?_, h⟩
      rintro t (rfl | ht)
      · exact hmy
      · exact IsTrans.trans _ _ _ hmy (h.1 t ht)

/-- Counts in the terms of an index, each with its count. -/
theorem insertEntries_tally [IsStrictTotalOrder Term lt] (idx : Index) {ts : List Term}
    (hts : ∀ t ∈ ts, t ∈ idx.terms) (hnodup : ts.Nodup) {l : List ScanTermInfo}
    {terms : Finset Term} {count : Term → Int} (h : Tally lt l terms count) :
    Tally lt ((ts.map idx.entry).foldl (insertEntry lt) l) (terms ∪ ts.toFinset)
      fun t => count t + if t ∈ ts then idx.count t else 0 := by
  induction ts generalizing l terms count with
  | nil => simpa using h
  | cons t ts ih =>
    obtain ⟨hnot, hnodup⟩ := List.nodup_cons.mp hnodup
    have hinsert : insertEntry lt l (idx.entry t) = insertTerm lt ⟨t, idx.count t⟩ l :=
      if_pos (idx.nonempty t (hts t (by simp)))
    have hone : Tally lt (insertTerm lt ⟨t, idx.count t⟩ l) (insert t terms)
        fun t' => count t' + if t = t' then idx.count t else 0 := by
      refine ⟨sorted_insertTerm lt _ h.sorted, fun t' => ?_, fun t' => ?_⟩
      · rw [mem_insertTerm, h.mem, Finset.mem_insert]
      · rw [total_insertTerm, h.totals]
    have hall := ih (fun t' ht' => hts t' (by simp [ht'])) hnodup hone
    rw [List.map_cons, List.foldl_cons, hinsert]
    refine ⟨hall.sorted, fun t' => ?_, fun t' => ?_⟩
    · rw [hall.mem]
      simp only [Finset.mem_union, Finset.mem_insert, List.mem_toFinset, List.mem_cons]
      tauto
    · rw [hall.totals]
      by_cases ht : t = t'
      · subst ht
        simp [hnot]
      · simp [ht, Ne.symm ht]

end Insert

/-- What the terms `part` of each index add to the count of `t`. -/
def countIn (idxs : List Index) (part : Index → List Term) (t : Term) : Int :=
  (idxs.map fun idx => if t ∈ part idx then idx.count t else 0).sum

/-- `l` has what the terms `part` of the indexes add up to. -/
def Tallies (lt : Term → Term → Prop) (idxs : List Index) (part : Index → List Term)
    (l : List ScanTermInfo) : Prop :=
  ∃ terms, Tally lt l terms (countIn idxs part) ∧
    ∀ t, t ∈ terms ↔ ∃ idx ∈ idxs, t ∈ part idx

theorem Tallies.insertEntries {lt : Term → Term → Prop} [DecidableRel lt]
    [IsStrictTotalOrder Term lt] {idxs : List Index} {part : Index → List Term}
    {l : List ScanTermInfo} (h : Tallies lt idxs part l) (idx : Index) {ts : List Term}
    (hts : ∀ t, t ∈ ts ↔ t ∈ part idx) (hsub : ∀ t ∈ ts, t ∈ idx.terms) (hnodup : ts.Nodup) :
    Tallies lt (idxs ++ [idx]) part ((ts.map idx.entry).foldl (insertEntry lt) l) := by
  obtain ⟨terms, htally, hmem⟩ := h
  have hnew := insertEntries_tally lt idx hsub hnodup htally
  refine ⟨terms ∪ ts.toFinset, ⟨hnew.sorted, hnew.mem, fun t => ?_⟩, fun t => ?_⟩
  · rw [hnew.totals, countIn, countIn]
    simp [hts]
  · simp only [Finset.mem_union, List.mem_toFinset, hmem, hts, List.mem_append,
      List.mem_singleton]
    constructor
    · rintro (⟨idx', hidx', ht⟩ | ht)
      · exact ⟨idx', .inl hidx', ht⟩
      · exact ⟨idx, .inr rfl, ht⟩
    · rintro ⟨idx', hidx' | rfl, ht⟩
      · exact .inl ⟨idx', hidx', ht⟩
      · exact .inr ht

namespace Index

variable {idx : Index} {T : Term} {N P : Nat}

end Index

theorem store_append (done tail : List (Option Entry)) (x : Option Entry) (e : Entry) {i : Int}
    (h : i = done.length) :
    store (done ++ x :: tail) i e = some (done ++ some e :: tail) := by
  subst h
  rw [store, if_pos (by simp)]
  simp

/-- The entries are filled from `position - 2` down. -/
theorem fillBefore_eq (position : Int) (tail : List (Option Entry)) (l : List ScanTermInfo)
    {k : Nat} (hk : k ≤ l.length) (i : Int) (hi : i + k = position - 1) :
    fillBefore position l i (List.replicate k none ++ tail) =
      some ((l.take k).reverse.map (fun it => some it.getEntry) ++ tail) := by
  induction l generalizing k i tail with
  | nil =>
    obtain rfl : k = 0 := by simpa using hk
    simp [fillBefore]
  | cons it rest ih =>
    cases k with
    | zero =>
      have hnot : ¬ i < position - 1 := by omega
      simp [fillBefore, hnot]
    | succ k =>
      have hlt : i < position - 1 := by omega
      have hstore : store (List.replicate (k + 1) none ++ tail) (position - 2 - i) it.getEntry =
          some (List.replicate k none ++ some it.getEntry :: tail) := by
        have hsplit : List.replicate (k + 1) (none : Option Entry) ++ tail =
            List.replicate k none ++ none :: tail := by
          rw [List.replicate_succ', List.append_assoc]
          rfl
        rw [hsplit]
        refine store_append _ _ _ _ ?_
        rw [List.length_replicate]
        omega
      rw [fillBefore, if_pos hlt, hstore, Option.bind_some,
        ih _ (by simpa using hk) (i + 1) (by omega)]
      simp

/-- They are filled on from `i`, as far as there are terms. -/
theorem fillAfter_eq (number : Int) (done : List (Option Entry)) (l : List ScanTermInfo) {k : Nat}
    (i : Int) (hi : i = done.length) (hk : i + k = number) :
    fillAfter number l i (done ++ List.replicate k none) =
      some (i + (l.take k).length, done ++ (l.take k).map (fun it => some it.getEntry) ++
        List.replicate (k - l.length) none) := by
  induction l generalizing k i done with
  | nil => simp [fillAfter]
  | cons it rest ih =>
    cases k with
    | zero =>
      have hnot : ¬ i < number := by omega
      simp [fillAfter, hnot]
    | succ k =>
      have hlt : i < number := by omega
      have hstore : store (done ++ List.replicate (k + 1) none) i it.getEntry =
          some ((done ++ [some it.getEntry]) ++ List.replicate k none) := by
        rw [List.replicate_succ, store_append _ _ _ _ hi]
        simp
      have hlen : i + 1 = ((done ++ [some it.getEntry]).length : Nat) := by
        simp [hi]
      rw [fillAfter, if_pos hlt, hstore, Option.bind_some, ih _ (i + 1) hlen (by omega)]
      simp only [List.take_succ_cons, List.length_cons, List.map_cons, List.append_assoc,
        List.cons_append, List.nil_append, Nat.add_sub_add_right]
      congr 2
      push_cast
      omega

theorem mapM_some (l : List Entry) : (l.map some).mapM id = some l := by
  induction l with
  | nil => rfl
  | cons e l ih => simp [ih]

section Union

variable {idxs : List Index} {T : Term} {N P : Nat}

end Union

def letter (c : Fin 256) : Term := [c]

/-- From `b`, the term before it first. -/
def scanB : ScanRequest := ⟨["Default"], letter 98, 3, some 2⟩

def respond (entries : List Entry) : BackendResult :=
  ⟨false, .scan ⟨.success, entries.length, some 2, some ⟨some entries, none⟩⟩⟩

end Multi
end Metaproxy
