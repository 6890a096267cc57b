import Metaproxy.FilterSort.Frontend

/-!
# FilterSort.Lists

What `handle_records` makes of the records of a target: a sorted list of the first ones of the
result set, and a response from it.

* `RecordList.get_eq` — `get` goes through the list, or through its reverse.
* `Prefetch.loop_take` — fetching ahead takes the records in their order.
* `handleRecords_cases` — either nothing is done, or the list is made.
-/

namespace Metaproxy
namespace FilterSort

open Lib Z3950

variable {ρ : Type*} {impl : Impl ρ} {set : List ρ}

/-! ## Sorted lists -/

/-- The records in the order in which `get` shows them. -/
def RecordList.displayed (l : RecordList ρ) (ascending : Bool) : List ρ :=
  if ascending then l.nprList else l.nprList.reverse

theorem RecordList.displayed_perm (l : RecordList ρ) (ascending : Bool) :
    (l.displayed ascending).Perm l.nprList := by
  cases ascending with
  | true => exact List.Perm.refl _
  | false => exact l.nprList.reverse_perm

theorem RecordList.length_displayed (l : RecordList ρ) (ascending : Bool) :
    (l.displayed ascending).length = l.nprList.length :=
  (l.displayed_perm ascending).length_eq

theorem RecordList.size_eq {l : RecordList ρ} (hlen : l.nprList.length < 2147483648) :
    l.size = l.nprList.length :=
  Util.toInt_eq (by omega) (by omega)

theorem RecordList.get_eq {l : RecordList ρ} (hlen : l.nprList.length < 2147483648) {i : Nat}
    (hi : i < l.nprList.length) (ascending : Bool) :
    l.get i ascending = (l.displayed ascending)[i]? := by
  cases ascending with
  | true => rfl
  | false =>
    have hint : Util.toInt (l.nprList.length - i - 1) = l.nprList.length - i - 1 :=
      Util.toInt_eq (by omega) (by omega)
    have hindex : ((l.nprList.length : Int) - i - 1).toNat = l.nprList.length - 1 - i := by omega
    simp only [RecordList.get, RecordList.displayed, Bool.false_eq_true, if_false, hint, hindex]
    rw [List.getElem?_reverse hi]

/-- The list of the first `n` records of a result set. -/
def sortedFirst (impl : Impl ρ) (syntax_ : Option Oid) (set : List ρ) (n : Nat) : RecordList ρ :=
  RecordList.sort impl.score ⟨syntax_, set.take n⟩

theorem length_sortedFirst {n : Nat} (hn : n ≤ set.length) (syntax_ : Option Oid) :
    (sortedFirst impl syntax_ set n).nprList.length = n := by
  rw [sortedFirst, RecordList.sort]
  simp only [List.length_insertionSort, List.length_take]
  omega

theorem sortedFirst_perm (syntax_ : Option Oid) (n : Nat) :
    (sortedFirst impl syntax_ set n).nprList.Perm (set.take n) :=
  List.perm_insertionSort _ _

/-! ## Fetching ahead -/

/-- If an answer has records, they are the first of those asked for. -/
def AnswersFrom (set : List ρ) (req : PresentRequest) (a : Answer ρ) : Prop :=
  ∀ res nprl, a.response = some (.present res) →
    res.records = some (.databaseOrSurDiagnostics nprl) →
    ∃ m : Nat, (m : Int) ≤ req.numberOfRecordsRequested ∧ m < 2147483648 ∧
      nprl = window set req.resultSetStartPoint m

theorem items_window (start : Int) (m : Nat) :
    (window set start m).items = (set.drop (start - 1).toNat).take m := by
  rw [NamePlusRecordList.items, window]
  simp only [Int.toNat_natCast, List.take_take, Nat.min_self]

theorem fetched_from {req : PresentRequest} {a : Answer ρ} (h : AnswersFrom set req a) :
    ∃ m : Nat, (m = 0 ∨ (m : Int) ≤ req.numberOfRecordsRequested) ∧ m < 2147483648 ∧
      fetched a = (set.drop (req.resultSetStartPoint - 1).toNat).take m := by
  unfold fetched
  split
  · rename_i res hres
    split
    · rename_i nprl hnprl
      obtain ⟨m, hm, hint, rfl⟩ := h res nprl hres hnprl
      exact ⟨m, .inr hm, hint, items_window _ m⟩
    · exact ⟨0, .inl rfl, by decide, rfl⟩
  · exact ⟨0, .inl rfl, by decide, rfl⟩

theorem Prefetch.loop_take {p : Prefetch} (hend : p.endPos ≤ set.length) {answers : List (Answer ρ)}
    {i d : Nat} {r : List ρ × List PresentRequest} (h : p.loop answers i ((d : Int) + 1) = some r)
    (hanswers : ∀ (k : Nat) req a, r.2[k]? = some req → answers[k]? = some a →
      AnswersFrom set req a) (hd : d ≤ set.length) :
    ∃ n, d ≤ n ∧ n ≤ set.length ∧ (n = d ∨ (n : Int) ≤ p.endPos) ∧
      set.take d ++ r.1 = set.take n ∧ r.1 = (answers.take r.2.length).flatMap fetched := by
  induction answers generalizing i d r with
  | nil =>
    rw [Prefetch.loop] at h
    split at h
    · cases h
    · cases h
      exact ⟨d, Nat.le_refl d, hd, .inl rfl, List.append_nil _, rfl⟩
  | cons a answers ih =>
    rw [Prefetch.loop] at h
    split at h
    · rename_i hgo
      obtain ⟨r', hr', rfl⟩ := Option.map_eq_some_iff.mp h
      obtain ⟨m, hm, -, hfetched⟩ :=
        fetched_from (hanswers 0 (p.request ((d : Int) + 1)) a rfl rfl)
      have hpos : ((d : Int) + 1 - 1).toNat = d := by omega
      simp only [Prefetch.request, hpos] at hm hfetched
      have hle : d + m ≤ set.length := by omega
      have hlen : (fetched a).length = m := by
        rw [hfetched, List.length_take, List.length_drop]
        omega
      have hnext : (d : Int) + 1 + (fetched a).length = ((d + m : Nat) : Int) + 1 := by
        rw [hlen]
        omega
      rw [hnext] at hr'
      obtain ⟨n, hdn, hn, hend', htake, hflat⟩ :=
        ih hr' (fun k req b hreq hb => hanswers (k + 1) req b hreq hb) hle
      refine ⟨n, by omega, hn, by omega, ?_, ?_⟩
      · rw [← List.append_assoc, hfetched, ← List.take_add, htake]
      · rw [List.length_cons, List.take_succ_cons, List.flatMap_cons, ← hflat]
    · cases h
      exact ⟨d, Nat.le_refl d, hd, .inl rfl, List.append_nil _, rfl⟩

/-! ## `handle_records` -/

section

variable {records : Option (Records ρ)} {startPos : Int} {s : ResultSet ρ} {syntax_ : Option Oid}
  {comp : Option RecordComposition} {resultSetId : String} {answers : List (Answer ρ)}
  {h : Handled ρ}

/-- There are records from the start of the result set, and no list of their syntax yet. -/
structure MakesList (records : Option (Records ρ)) (startPos : Int) (s : ResultSet ρ)
    (syntax_ : Option Oid) : Prop where
  records : ∃ nprl, records = some (.databaseOrSurDiagnostics nprl)
  start : startPos = 1
  first : s.recordLists.any (fun l => l.cmp syntax_) = false

theorem handleRecords_unchanged
    (hh : handleRecords impl records startPos s syntax_ comp resultSetId answers = some h)
    (hnot : ¬ MakesList records startPos s syntax_) :
    h = ⟨s, records.map (Records.map some), []⟩ := by
  unfold handleRecords at hh
  simp only at hh
  split at hh
  · split at hh
    · exact (Option.some.inj hh).symm
    · rename_i hstart
      split at hh
      · exact (Option.some.inj hh).symm
      · rename_i hany
        exact absurd ⟨⟨_, rfl⟩, Decidable.not_not.mp hstart, Bool.eq_false_iff.mpr hany⟩ hnot
  · exact (Option.some.inj hh).symm

theorem handleRecords_lists
    (hh : handleRecords impl records startPos s syntax_ comp resultSetId answers = some h) :
    h.set.hitCount = s.hitCount ∧ (h.set.recordLists = s.recordLists ∨
      ∃ l : RecordList ρ, l.syntax_ = syntax_ ∧ h.set.recordLists = s.recordLists ++ [l]) := by
  by_cases hmakes : MakesList records startPos s syntax_
  · obtain ⟨⟨nprl, rfl⟩, rfl, hany⟩ := hmakes
    simp only [handleRecords, ne_eq, not_true_eq_false, if_false, hany, Bool.false_eq_true] at hh
    obtain ⟨r, -, rfl⟩ := Option.map_eq_some_iff.mp hh
    exact ⟨rfl, .inr ⟨_, rfl, rfl⟩⟩
  · rw [handleRecords_unchanged hh hmakes]
    exact ⟨rfl, .inl rfl⟩

theorem map_get {l : RecordList ρ} (hlen : l.nprList.length < 2147483648) {m : Nat}
    (hm : m ≤ l.nprList.length) (ascending : Bool) :
    ((List.range m).map fun (i : Nat) => l.get i ascending) =
      ((l.displayed ascending).take m).map some := by
  refine List.ext_getElem? fun i => ?_
  rw [List.getElem?_map, List.getElem?_map]
  by_cases hi : i < m
  · have hin : i < (l.displayed ascending).length := by
      rw [l.length_displayed]
      omega
    rw [List.getElem?_range hi, List.getElem?_take_of_lt hi, Option.map_some,
      RecordList.get_eq hlen (by omega), List.getElem?_eq_getElem hin]
    rfl
  · rw [List.getElem?_eq_none (l := List.range m) (by simpa using hi), List.getElem?_eq_none]
    · rfl
    · rw [List.length_take]
      omega

theorem handleRecords_made (hprefetch : impl.prefetch < 2147483648)
    (hhits : s.hitCount = set.length) {m : Nat} (hm : m ≤ set.length) (hint : m < 2147483648)
    (hfirst : s.recordLists.any (fun l => l.cmp syntax_) = false)
    (hh : handleRecords impl (some (.databaseOrSurDiagnostics (window set 1 m))) 1 s syntax_ comp
      resultSetId answers = some h)
    (hanswers : ∀ (k : Nat) req a, h.sent[k]? = some req → answers[k]? = some a →
      AnswersFrom set req a) :
    ∃ n, m ≤ n ∧ n ≤ set.length ∧ n < 2147483648 ∧
      set.take n = set.take m ++ (answers.take h.sent.length).flatMap fetched ∧
      h.set = { s with recordLists := s.recordLists ++ [sortedFirst impl syntax_ set n] } ∧
      h.records = some (.databaseOrSurDiagnostics
        ⟨m, (((sortedFirst impl syntax_ set n).displayed impl.ascending).take m).map some⟩) := by
  have hitems : (window set 1 m).items = set.take m := items_window 1 m
  have hlen : (set.take m).length = m := by
    rw [List.length_take]
    omega
  simp only [handleRecords, ne_eq, not_true_eq_false, if_false, hfirst, Bool.false_eq_true,
    hitems, hlen] at hh
  obtain ⟨r, hr, rfl⟩ := Option.map_eq_some_iff.mp hh
  have hend : (if impl.prefetch > s.hitCount then Util.toInt s.hitCount else impl.prefetch) =
      min impl.prefetch set.length := by
    rw [hhits]
    split
    · rw [Util.toInt_eq (by omega) (by omega)]
      omega
    · omega
  rw [hend, Int.add_comm] at hr
  obtain ⟨n, hmn, hn, hbound, htake, hflat⟩ :=
    Prefetch.loop_take (Int.min_le_right _ _) hr hanswers hm
  simp only at hbound
  have hnint : n < 2147483648 := by omega
  have hsort : RecordList.sort impl.score ⟨syntax_, set.take m ++ r.1⟩ =
      sortedFirst impl syntax_ set n := by
    rw [htake, sortedFirst]
  have hlength : (sortedFirst impl syntax_ set n).nprList.length = n := length_sortedFirst hn syntax_
  refine ⟨n, hmn, hn, hnint, ?_, ?_, ?_⟩
  · simp only
    rw [← hflat, htake]
  · simp only [hsort]
  · simp only [hsort]
    rw [← map_get (by omega) (by omega)]
    rfl

end

end FilterSort
end Metaproxy
