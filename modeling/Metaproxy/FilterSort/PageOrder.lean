import Metaproxy.FilterSort.Pages
import Metaproxy.Lib.Run

/-!
# FilterSort.PageOrder

Do the pages of a result set show one order of its records?

* `Keeps` — when a step goes on to show the order of the list (`follows_iff`): no record is shown
  that the sort has put somewhere else.
* `pages_agree` — runs of such steps. Any other step is found out by one more present.
-/

namespace Metaproxy
namespace FilterSort

open Lib Z3950

variable {ρ : Type*} {impl : Impl ρ} {set : List ρ} {pr : PresentRequest}

section Step

variable {s s' : Session ρ} {a : Asks ρ}

/-- Another record is shown at the position than the target has there. -/
def Moved (set order : List ρ) (p : Nat) : Prop := order[p - 1]? ≠ set[p - 1]?

theorem follows_iff_not_moved {order : List ρ} {page : Page (Option ρ)}
    (h : page.Follows (set.map some)) :
    page.Follows (order.map some) ↔ ∀ p x, page.Shows p x → ¬ Moved set order p := by
  constructor
  · intro horder p x hx hmoved
    have hset := (h p x hx).2
    have hget := (horder p x hx).2
    rw [← hset, List.getElem?_map, List.getElem?_map] at hget
    exact hmoved (Option.map_injective (Option.some_injective ρ) hget)
  · intro hmoved
    refine h.of_eq fun p x hx => ?_
    rw [List.getElem?_map, List.getElem?_map, Classical.not_not.mp (hmoved p x hx)]

theorem follows_map_part {l : List ρ} {first : Nat} (hfirst : 1 ≤ first) (n : Nat) :
    Page.Follows (l.map some) ⟨first, ((l.drop (first - 1)).take n).map some⟩ := by
  have h : Page.Follows (l.map some) ⟨first, ((l.map some).drop (first - 1)).take n⟩ :=
    follows_part hfirst n
  rw [← List.map_drop, ← List.map_take] at h
  exact h

/-- No record of a list that is there or being made is shown at the target's position and at that
of the list, unless it is the same: not in what the target returns, and not on the pages from before
there was a list. -/
def Keeps (impl : Impl ρ) (pr : PresentRequest) (set : List ρ) (s : Session ρ) (a : Asks ρ) :
    Prop :=
  match s.list pr with
  | some l => ∀ i < a.records.length, ¬ Moved set (order impl set (some l)) (a.start.toNat + i)
  | none => a.start = 1 → ∀ page ∈ s.pages, ∀ p x, page.Shows p x →
      ¬ Moved set (order impl set
        (some (RecordList.sort impl.score ⟨pr.preferredRecordSyntax, a.records⟩))) p

/-- Every page shows the order of the list there is. -/
def Session.Follows (impl : Impl ρ) (pr : PresentRequest) (set : List ρ) (s : Session ρ) : Prop :=
  ∀ page ∈ s.pages, page.Follows ((order impl set (s.list pr)).map some)

theorem follows_append_iff {order : List (Option ρ)} {pages : List (Page (Option ρ))}
    {page : Page (Option ρ)} : (∀ q ∈ pages ++ [page], q.Follows order) ↔
      (∀ q ∈ pages, q.Follows order) ∧ page.Follows order := by
  rw [List.forall_mem_append, List.forall_mem_singleton]

theorem shows_map_iff {first : Nat} {items : List ρ} {p : Nat} :
    (∃ x, Page.Shows ⟨first, items.map some⟩ p x) ↔ ∃ i < items.length, first + i = p := by
  constructor
  · rintro ⟨x, i, hi, rfl⟩
    simp only [List.getElem?_map, Option.map_eq_some_iff] at hi
    obtain ⟨y, hy, -⟩ := hi
    exact ⟨i, (List.getElem?_eq_some_iff.mp hy).1, rfl⟩
  · rintro ⟨i, hi, rfl⟩
    refine ⟨some items[i], i, ?_, rfl⟩
    simp only [List.getElem?_map, List.getElem?_eq_getElem hi, Option.map_some]

theorem keeps_of_list_of_empty {l : RecordList ρ} (hl : s.list pr = some l)
    (hrecords : a.records = []) : Keeps impl pr set s a := by
  simp only [Keeps, hl, hrecords, List.length_nil]
  intro i hi
  exact absurd hi (Nat.not_lt_zero i)

/-- A list without records moves none. -/
theorem keeps_of_none_of_empty (hl : s.list pr = none)
    (hrecords : a.start = 1 → a.records = []) : Keeps impl pr set s a := by
  simp only [Keeps, hl]
  intro hone page _ p x _ hmoved
  rw [hrecords hone, order_sort_nil] at hmoved
  exact hmoved rfl

theorem follows_records {m : Nat} (hstart : 1 ≤ a.start)
    (hrecords : a.records = (set.drop (a.start.toNat - 1)).take m) :
    Page.Follows (set.map some) ⟨a.start.toNat, a.records.map some⟩ := by
  rw [hrecords]
  exact follows_map_part (by omega) m

theorem follows_made {n m : Nat} (hn : n ≤ set.length) (hmn : m ≤ n) (syntax_ : Option Oid) :
    Page.Follows ((order impl set (some (sortedFirst impl syntax_ set n))).map some)
      ⟨1, (((sortedFirst impl syntax_ set n).displayed impl.ascending).take m).map some⟩ := by
  have hle : 0 + m ≤ (sortedFirst impl syntax_ set n).nprList.length := by
    rw [length_sortedFirst hn]
    omega
  have htake : ((order impl set _).drop 0).take m = _ := order_take hle
  rw [List.drop_zero, List.drop_zero] at htake
  rw [← htake]
  exact follows_map_part (Nat.le_refl 1) m

/-- What the target returns follows the order of the list exactly when the step meets `Keeps`. -/
theorem follows_iff (hserves : Serves impl pr set s a) (hfollows : s.Follows impl pr set)
    (h : Presents impl pr set s a s') : s'.Follows impl pr set ↔ Keeps impl pr set s a := by
  cases h with
  | @fromList l hl hl' hrecords hpages =>
    refine iff_of_true ?_ (keeps_of_list_of_empty hl hrecords)
    have hstart := hserves.start
    rw [Session.Follows, hpages, hl', follows_append_iff]
    rw [Session.Follows, hl] at hfollows
    exact ⟨hfollows, follows_map_part (by omega) _⟩
  | @passedOn m hl' hrecords hnone hpages =>
    have hraw := follows_records hserves.start hrecords
    rw [Session.Follows] at hfollows ⊢
    rw [hpages, hl', follows_append_iff, and_iff_right hfollows]
    cases hl : s.list pr with
    | none => exact iff_of_true hraw (keeps_of_none_of_empty hl (hnone hl))
    | some l =>
      rw [follows_iff_not_moved hraw]
      simp only [Keeps, hl]
      constructor
      · intro h i hi
        obtain ⟨x, hx⟩ := shows_map_iff.mpr ⟨i, hi, rfl⟩
        exact h _ x hx
      · intro h p x hx
        obtain ⟨i, hi, rfl⟩ := shows_map_iff.mp ⟨x, hx⟩
        exact h i hi
  | @made m n hl hone hmn hn hrecords hl' hpages =>
    have hlist : RecordList.sort impl.score ⟨pr.preferredRecordSyntax, a.records⟩ =
        sortedFirst impl pr.preferredRecordSyntax set n := by
      rw [hrecords, sortedFirst]
    rw [Session.Follows, hpages, hl', follows_append_iff, and_iff_left (follows_made hn hmn _)]
    rw [Session.Follows, hl] at hfollows
    simp only [Keeps, hl, hlist, hone, true_imp_iff]
    refine forall₂_congr fun page hmem => ?_
    exact follows_iff_not_moved (hfollows page hmem)

/-- A record is moved inside the list only. -/
theorem le_of_moved {l : RecordList ρ} {p : Nat}
    (h : Moved set (order impl set (some l)) p) : p ≤ l.nprList.length := by
  by_contra hgt
  refine h ?_
  have hlen := l.length_displayed impl.ascending
  have hindex : l.nprList.length + (p - 1 - l.nprList.length) = p - 1 := by omega
  rw [order, List.getElem?_append_right (by omega), hlen, List.getElem?_drop, hindex]

/-- A step that does not meet `Keeps` leaves a page that shows a moved record. -/
theorem moved_of_not_keeps (hserves : Serves impl pr set s a) (hfollows : s.Follows impl pr set)
    (h : Presents impl pr set s a s') (hnot : ¬ Keeps impl pr set s a) :
    ∃ l, s'.list pr = some l ∧ ∃ page ∈ s'.pages, ∃ p x, page.Shows p x ∧ 1 ≤ p ∧
      (set.map some)[p - 1]? = some x ∧ Moved set (order impl set (some l)) p := by
  cases h with
  | @fromList l hl hl' hrecords hpages => exact absurd (keeps_of_list_of_empty hl hrecords) hnot
  | @passedOn m hl' hrecords hnone hpages =>
    cases hl : s.list pr with
    | none => exact absurd (keeps_of_none_of_empty hl (hnone hl)) hnot
    | some l =>
      simp only [Keeps, hl] at hnot
      push Not at hnot
      obtain ⟨i, hi, hmoved⟩ := hnot
      obtain ⟨x, hx⟩ := shows_map_iff.mpr ⟨i, hi, rfl⟩
      obtain ⟨hpos, hget⟩ := follows_records hserves.start hrecords _ x hx
      refine ⟨l, hl'.trans hl, _, ?_, _, x, hx, hpos, hget, hmoved⟩
      rw [hpages]
      exact List.mem_append_right _ (List.mem_singleton_self _)
  | @made m n hl hone hmn hn hrecords hl' hpages =>
    simp only [Keeps, hl, hrecords] at hnot
    push Not at hnot
    obtain ⟨-, page, hpage, p, x, hx, hmoved⟩ := hnot
    rw [Session.Follows, hl] at hfollows
    obtain ⟨hpos, hget⟩ := hfollows page hpage p x hx
    refine ⟨_, hl', page, ?_, p, x, hx, hpos, hget, hmoved⟩
    rw [hpages]
    exact List.mem_append_left _ hpage

/-- Presented on its own, it is the record of the list. -/
theorem disagree_of_moved (hsize : set.length < 9223372036854775808)
    (hopened : OpenedIn impl pr set s.frontend) {l : RecordList ρ} (hl : s.list pr = some l)
    {page : Page (Option ρ)} (hpage : page ∈ s.pages) {p : Nat} {x : Option ρ}
    (hx : page.Shows p x) (hpos : 1 ≤ p) (hget : (set.map some)[p - 1]? = some x)
    (hmoved : Moved set (order impl set (some l)) p) :
    ∃ b s', Serves impl pr set s b ∧ step impl pr s b = some s' ∧ ¬ Agree s'.pages := by
  have hopened' := hopened
  obtain ⟨rset, hset, hopen⟩ := hopened
  obtain ⟨n, hn, hint, hsorted⟩ := hopen.list l ((list_of_lookup hset).symm.trans hl)
  have hlen : l.nprList.length = n := by
    rw [hsorted]
    exact length_sortedFirst hn _
  have hple : p ≤ l.nprList.length := le_of_moved hmoved
  let b : Asks ρ := ⟨p, 1, false, []⟩
  have hfirst : (1 : Int) ≤ b.start := by
    show (1 : Int) ≤ (p : Int)
    omega
  have hnumber : (0 : Int) ≤ b.number := Int.one_nonneg
  have hlast : b.start + b.number - 1 ≤ set.length := by
    show (p : Int) + 1 - 1 ≤ set.length
    omega
  have hin : b.start - 1 + b.number ≤ l.nprList.length := by
    show (p : Int) - 1 + 1 ≤ l.nprList.length
    omega
  obtain ⟨hpresent, hstep⟩ := step_local hsize hopened' hl hfirst hnumber hlast hin
  refine ⟨b, _, serves_of hfirst hnumber hlast hpresent .nil, hstep, ?_⟩
  intro hagree
  have hlt : p - 1 < (order impl set (some l)).length := by
    rw [hsorted, (order_sortedFirst_perm hn _).length_eq]
    omega
  have hshows : Page.Shows (⟨b.start.toNat, (((order impl set (some l)).drop
      (b.start.toNat - 1)).take b.number.toNat).map some⟩ : Page (Option ρ)) p
        (some (order impl set (some l))[p - 1]) := by
    refine ⟨0, ?_, rfl⟩
    show ((((order impl set (some l)).drop (p - 1)).take 1).map some)[0]? = _
    rw [List.getElem?_map, List.getElem?_take_of_lt (by decide), List.getElem?_drop, Nat.add_zero,
      List.getElem?_eq_getElem hlt]
    rfl
  have heq := hagree page (List.mem_append_left _ hpage) _
    (List.mem_append_right _ (List.mem_singleton_self _)) p x _ hx hshows
  refine hmoved ?_
  rw [heq, List.getElem?_map] at hget
  obtain ⟨y, hy, hsome⟩ := Option.map_eq_some_iff.mp hget
  obtain rfl := Option.some.inj hsome
  rw [hy, List.getElem?_eq_getElem hlt]

end Step

/-! ## All runs -/

/-- The result set is open, and the pages follow its order. -/
def Sound (impl : Impl ρ) (pr : PresentRequest) (set : List ρ) (s : Session ρ) : Prop :=
  OpenedIn impl pr set s.frontend ∧ s.Follows impl pr set

def Meets (impl : Impl ρ) (pr : PresentRequest) (set : List ρ) (s : Session ρ) (a : Asks ρ) :
    Prop :=
  Serves impl pr set s a ∧ Keeps impl pr set s a

variable {s : Session ρ}

theorem sound_of_reach (hprefetch : impl.prefetch < 2147483648)
    (hsize : set.length < 9223372036854775808)
    (h : Reach (step impl pr) (Searched impl pr set) (Meets impl pr set) s) :
    Sound impl pr set s := by
  refine h.invariant (I := Sound impl pr set) ?_ ?_
  · rintro s ⟨hopened, hpages⟩
    refine ⟨hopened, ?_⟩
    rw [Session.Follows, hpages]
    intro page hpage
    cases hpage
  · rintro s a s' ⟨hopened, hfollows⟩ ⟨hserves, hkeeps⟩ hs
    obtain ⟨hopened', hpresents⟩ := step_cases hprefetch hsize hopened hserves hs
    exact ⟨hopened', (follows_iff hserves hfollows hpresents).mpr hkeeps⟩

theorem order_perm (hopened : OpenedIn impl pr set s.frontend) :
    (order impl set (s.list pr)).Perm set := by
  obtain ⟨rset, hset, hopen⟩ := hopened
  rw [list_of_lookup hset]
  cases hl : listOf pr rset with
  | none => exact List.Perm.refl set
  | some l =>
    obtain ⟨n, hn, -, rfl⟩ := hopen.list l hl
    exact order_sortedFirst_perm hn _

/-- In every state reached by steps that meet `Keeps`, the pages agree, and those that cover the
result set show every record of it once. Any other step is followed by a present that does not
agree. -/
theorem pages_agree (hprefetch : impl.prefetch < 2147483648)
    (hsize : set.length < 9223372036854775808)
    (h : Reach (step impl pr) (Searched impl pr set) (Meets impl pr set) s) :
    Agree s.pages ∧ Complete (set.map some) s.pages ∧
    ∀ a s', Serves impl pr set s a → step impl pr s a = some s' → ¬ Keeps impl pr set s a →
      ∃ b s'', Serves impl pr set s' b ∧ step impl pr s' b = some s'' ∧ ¬ Agree s''.pages := by
  obtain ⟨hopened, hfollows⟩ := sound_of_reach hprefetch hsize h
  refine ⟨agree_of_follows hfollows, complete_of_follows ((order_perm hopened).map some) hfollows,
    ?_⟩
  intro a s' hserves hs hnot
  obtain ⟨hopened', hpresents⟩ := step_cases hprefetch hsize hopened hserves hs
  obtain ⟨l, hl, page, hpage, p, x, hx, hpos, hget, hmoved⟩ :=
    moved_of_not_keeps hserves hfollows hpresents hnot
  exact disagree_of_moved hsize hopened' hl hpage hx hpos hget hmoved

/-! ## A set of three -/

/-- An answer with these records. -/
def returns (records : List Nat) : Answer Nat :=
  ⟨false, some (.present { (PresentResponse.new : PresentResponse Nat) with
    numberOfRecordsReturned := records.length
    records := some (.databaseOrSurDiagnostics ⟨records.length, records⟩) })⟩

theorem answersFrom_returns {set records : List Nat} {req : PresentRequest} {m : Nat}
    (hm : (m : Int) ≤ req.numberOfRecordsRequested) (hint : m < 2147483648)
    (h : ⟨records.length, records⟩ = window set req.resultSetStartPoint m) :
    AnswersFrom set req (returns records) := by
  intro res nprl hres hnprl
  cases hres
  cases hnprl
  exact ⟨m, hm, hint, h⟩

/-- Two records are fetched ahead. -/
def twoAhead : Impl Nat := ⟨2, true, fun r => [UInt8.ofNat r]⟩

def defaultSet : PresentRequest := ⟨"default", 1, 1, none, none⟩

def threeRecords : List Nat := [2, 1, 3]

def threeHits (lists : List (RecordList Nat)) : Frontend Nat :=
  ⟨true, (∅ : Table String (ResultSet Nat)).insert "default" ⟨3, lists⟩⟩

theorem searched_three : Searched twoAhead defaultSet threeRecords ⟨threeHits [], []⟩ :=
  ⟨⟨⟨3, []⟩, rfl, rfl, fun l hl => absurd hl (by simp [listOf])⟩, rfl⟩

/-- The first record, with the one fetched ahead. -/
def firstPage : Asks Nat := ⟨1, 1, false, [returns [2], returns [1]]⟩

theorem serves_firstPage :
    Serves twoAhead defaultSet threeRecords ⟨threeHits [], []⟩ firstPage := by
  have hr : handlePresent twoAhead (threeHits []) false (windowRequest defaultSet 1 1)
      [returns [2], returns [1]] = some _ := rfl
  refine serves_of (by decide) (by decide) (by decide) hr (.cons ?_ (.cons ?_ .nil))
  · exact answersFrom_returns (m := 1) (by decide) (by decide) rfl
  · exact answersFrom_returns (m := 1) (by decide) (by decide) rfl

/-- What the first page leaves. -/
def secondState : Session Nat := ⟨threeHits [⟨none, [1, 2]⟩], [⟨1, [some 1]⟩]⟩

theorem step_firstPage :
    step twoAhead defaultSet ⟨threeHits [], []⟩ firstPage = some secondState := rfl

/-- The second record, from the list. -/
def fromList : Asks Nat := ⟨2, 1, false, []⟩

theorem serves_fromList (pages : List (Page (Option Nat))) :
    Serves twoAhead defaultSet threeRecords ⟨threeHits [⟨none, [1, 2]⟩], pages⟩ fromList := by
  have hr : handlePresent twoAhead (threeHits [⟨none, [1, 2]⟩]) false
      (windowRequest defaultSet 2 1) [] = some _ := rfl
  exact serves_of (by decide) (by decide) (by decide) hr .nil

theorem pages_agree_two : ∃ s, Reach (step twoAhead defaultSet)
      (Searched twoAhead defaultSet threeRecords) (Meets twoAhead defaultSet threeRecords) s ∧
    s.pages = [⟨1, [some 1]⟩, ⟨2, [some 2]⟩] ∧ Agree s.pages ∧
    Complete (threeRecords.map some) s.pages := by
  have hfirst : Keeps twoAhead defaultSet threeRecords ⟨threeHits [], []⟩ firstPage :=
    fun _ page hpage => by cases hpage
  have hsecond : Keeps twoAhead defaultSet threeRecords secondState fromList :=
    fun i hi => absurd hi (Nat.not_lt_zero i)
  have hreach : Reach (step twoAhead defaultSet) (Searched twoAhead defaultSet threeRecords)
      (Meets twoAhead defaultSet threeRecords)
      ⟨threeHits [⟨none, [1, 2]⟩], [⟨1, [some 1]⟩, ⟨2, [some 2]⟩]⟩ :=
    ((Reach.start searched_three).next ⟨serves_firstPage, hfirst⟩ step_firstPage).next
      ⟨serves_fromList _, hsecond⟩ rfl
  have hagree := pages_agree (by decide) (by decide) hreach
  exact ⟨_, hreach, rfl, hagree.1, hagree.2.1⟩

/-- The last two records: the window is longer than the list. -/
def lastTwo : Asks Nat := ⟨2, 2, false, [returns [1, 3]]⟩

theorem serves_lastTwo : Serves twoAhead defaultSet threeRecords secondState lastTwo := by
  have hr : handlePresent twoAhead (threeHits [⟨none, [1, 2]⟩]) false
      (windowRequest defaultSet 2 2) [returns [1, 3]] = some _ := rfl
  refine serves_of (by decide) (by decide) (by decide) hr (.cons ?_ .nil)
  exact answersFrom_returns (m := 2) (by decide) (by decide) rfl

/-- Record 1 is shown at two positions, record 2 only when its position is presented again. -/
theorem pages_not_agree : ∃ s, Reach (step twoAhead defaultSet)
      (Searched twoAhead defaultSet threeRecords) (Serves twoAhead defaultSet threeRecords) s ∧
    ¬ Agree s.pages ∧ ¬ Complete (threeRecords.map some) s.pages := by
  have hreach : Reach (step twoAhead defaultSet) (Searched twoAhead defaultSet threeRecords)
      (Serves twoAhead defaultSet threeRecords) ⟨threeHits [⟨none, [1, 2]⟩],
        [⟨1, [some 1]⟩, ⟨2, [some 1, some 3]⟩, ⟨2, [some 2]⟩]⟩ :=
    (((Reach.start searched_three).next serves_firstPage step_firstPage).next serves_lastTwo
      rfl).next (serves_fromList _) rfl
  refine ⟨_, hreach, ?_, ?_⟩
  · intro hagree
    have heq := hagree ⟨2, [some 1, some 3]⟩ (by simp) ⟨2, [some 2]⟩ (by simp) 2 _ _
      ⟨0, rfl, rfl⟩ ⟨0, rfl, rfl⟩
    exact absurd heq (by decide)
  · intro hcomplete
    -- the first page and the last two records
    have hperm := hcomplete (fun p => if p = 3 then some 3 else some 1) ?_
    · exact absurd hperm (by decide)
    · intro p hpos hle
      have hp : p = 1 ∨ p = 2 ∨ p = 3 := by
        have hlen : (threeRecords.map some).length = 3 := rfl
        omega
      rcases hp with rfl | rfl | rfl
      · exact ⟨⟨1, [some 1]⟩, by simp, 0, rfl, rfl⟩
      · exact ⟨⟨2, [some 1, some 3]⟩, by simp, 0, rfl, rfl⟩
      · exact ⟨⟨2, [some 1, some 3]⟩, by simp, 1, rfl, rfl⟩

end FilterSort
end Metaproxy
