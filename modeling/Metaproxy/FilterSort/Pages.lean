import Metaproxy.FilterSort.Lists
import Metaproxy.Lib.Pages

/-!
# FilterSort.Pages

Windows of one result set, presented one after the other in one syntax and composition.

Windows inside the sorted list are shown from there; what the target returns for others is passed on
as it is, also where they begin inside the list, and before there is one.

* `handleSearch_opened` — what a search leaves.
* `Serves` — a target that answers from its result set.
* `step_cases` — what a present request shows.
-/

namespace Metaproxy
namespace FilterSort

open Lib Z3950

variable {ρ : Type*} {impl : Impl ρ} {set : List ρ} {pr : PresentRequest}

/-- What is shown of a result set, with and without a list. -/
def order (impl : Impl ρ) (set : List ρ) : Option (RecordList ρ) → List ρ
  | none => set
  | some l => l.displayed impl.ascending ++ set.drop l.nprList.length

theorem order_sortedFirst_perm {n : Nat} (hn : n ≤ set.length) (syntax_ : Option Oid) :
    (order impl set (some (sortedFirst impl syntax_ set n))).Perm set := by
  rw [order, length_sortedFirst hn]
  have hperm := ((sortedFirst impl syntax_ set n).displayed_perm impl.ascending).trans
    (sortedFirst_perm syntax_ n)
  refine (hperm.append_right _).trans ?_
  rw [List.take_append_drop]

theorem order_sort_nil (syntax_ : Option Oid) :
    order impl set (some (RecordList.sort impl.score ⟨syntax_, []⟩)) = set := by
  simp [order, RecordList.displayed, RecordList.sort]

theorem order_take {l : RecordList ρ} {k n : Nat} (h : k + n ≤ l.nprList.length) :
    ((order impl set (some l)).drop k).take n = ((l.displayed impl.ascending).drop k).take n := by
  have hlen := l.length_displayed impl.ascending
  rw [order, List.drop_append_of_le_length (by omega), List.take_append_of_le_length]
  rw [List.length_drop]
  omega

/-! ## Runs -/

/-- The client's pages, each with the records of one response. -/
structure Session (ρ : Type*) where
  frontend : Frontend ρ
  pages : List (Page (Option ρ))

/-- A window, and the answers to the requests that are sent for it. -/
structure Asks (ρ : Type*) where
  start : Int
  number : Int
  closed : Bool
  answers : List (Answer ρ)

/-- The records of all answers. -/
def Asks.records (a : Asks ρ) : List ρ := a.answers.flatMap fetched

def step (impl : Impl ρ) (pr : PresentRequest) (s : Session ρ) (a : Asks ρ) :
    Option (Session ρ) :=
  (handlePresent impl s.frontend a.closed (windowRequest pr a.start a.number) a.answers).map fun r =>
    ⟨r.frontend, s.pages ++ [⟨a.start.toNat, fetched ⟨r.closed, r.response⟩⟩]⟩

def Result.requests (req : PresentRequest) (r : Result ρ) : List PresentRequest :=
  (if r.forwarded.isSome then [req] else []) ++ r.sent

/-- A window in range, and a target that answers from its result set. It may return as few records
as it likes, or none. -/
structure Serves (impl : Impl ρ) (pr : PresentRequest) (set : List ρ) (s : Session ρ)
    (a : Asks ρ) : Prop where
  start : 1 ≤ a.start
  number : 0 ≤ a.number
  last : a.start + a.number - 1 ≤ set.length
  answers : ∀ r, handlePresent impl s.frontend a.closed (windowRequest pr a.start a.number)
    a.answers = some r →
      List.Forall₂ (AnswersFrom set) (r.requests (windowRequest pr a.start a.number)) a.answers

theorem get_of_forall₂ {α β : Type*} {R : α → β → Prop} {l : List α} {l' : List β}
    (h : List.Forall₂ R l l') {k : Nat} {x : α} {y : β} (hx : l[k]? = some x)
    (hy : l'[k]? = some y) : R x y := by
  obtain ⟨hk, rfl⟩ := List.getElem?_eq_some_iff.mp hx
  obtain ⟨hk', rfl⟩ := List.getElem?_eq_some_iff.mp hy
  exact h.get hk hk'

theorem serves_of {s : Session ρ} {a : Asks ρ} {r : Result ρ} (hstart : 1 ≤ a.start)
    (hnumber : 0 ≤ a.number) (hlast : a.start + a.number - 1 ≤ set.length)
    (hr : handlePresent impl s.frontend a.closed (windowRequest pr a.start a.number) a.answers =
      some r)
    (hanswers : List.Forall₂ (AnswersFrom set)
      (r.requests (windowRequest pr a.start a.number)) a.answers) : Serves impl pr set s a := by
  refine ⟨hstart, hnumber, hlast, ?_⟩
  intro r' hr'
  rw [hr] at hr'
  obtain rfl := Option.some.inj hr'
  exact hanswers

/-- The list of the syntax. -/
def listOf (pr : PresentRequest) (rset : ResultSet ρ) : Option (RecordList ρ) :=
  rset.recordLists.find? fun l => l.cmp pr.preferredRecordSyntax

def Session.list (pr : PresentRequest) (s : Session ρ) : Option (RecordList ρ) :=
  (s.frontend.sets.lookup pr.resultSetId).bind (listOf pr)

/-- The result set is there, and its list, if any, has the first records of it. -/
structure Opened (impl : Impl ρ) (pr : PresentRequest) (set : List ρ) (rset : ResultSet ρ) :
    Prop where
  hits : rset.hitCount = set.length
  list : ∀ l ∈ listOf pr rset,
    ∃ n, n ≤ set.length ∧ n < 2147483648 ∧ l = sortedFirst impl pr.preferredRecordSyntax set n

def OpenedIn (impl : Impl ρ) (pr : PresentRequest) (set : List ρ) (f : Frontend ρ) : Prop :=
  ∃ rset, f.sets.lookup pr.resultSetId = some rset ∧ Opened impl pr set rset

/-- No page has been shown yet. -/
def Searched (impl : Impl ρ) (pr : PresentRequest) (set : List ρ) (s : Session ρ) : Prop :=
  OpenedIn impl pr set s.frontend ∧ s.pages = []

theorem Opened.length_lt {rset : ResultSet ρ} (h : Opened impl pr set rset) :
    ∀ l ∈ listOf pr rset, l.nprList.length < 2147483648 := by
  intro l hl
  obtain ⟨n, hn, hint, rfl⟩ := h.list l hl
  rw [length_sortedFirst hn]
  exact hint

theorem listOf_eq_none_iff {rset : ResultSet ρ} :
    listOf pr rset = none ↔ rset.recordLists.any (fun l => l.cmp pr.preferredRecordSyntax) = false := by
  rw [listOf, List.find?_eq_none, List.any_eq_false]

theorem listOf_append {rset : ResultSet ρ} (h : listOf pr rset = none) (n : Nat) :
    listOf pr { rset with
      recordLists := rset.recordLists ++ [sortedFirst impl pr.preferredRecordSyntax set n] } =
        some (sortedFirst impl pr.preferredRecordSyntax set n) := by
  rw [listOf] at h
  have hcmp : (sortedFirst impl pr.preferredRecordSyntax set n).cmp pr.preferredRecordSyntax = true :=
    decide_eq_true rfl
  rw [listOf, List.find?_append, h, Option.none_or]
  exact List.find?_cons_of_pos hcmp

section Search

variable {f : Frontend ρ} {closed : Bool} {req : SearchRequest} {hitCount : Int} {b : Answer ρ}
  {answers : List (Answer ρ)} {r : Result ρ} {res : SearchResponse ρ}

/-- The result set is open after a search for it, with a list when the search has brought records in
the syntax of the presents. -/
theorem handleSearch_opened (hprefetch : impl.prefetch < 2147483648)
    (hname : req.resultSetName = pr.resultSetId)
    (hnew : f.sets.lookup req.resultSetName = none ∨ req.replaceIndicator = true)
    (hb : b.response = some (.search res)) (hcount : res.resultCount = set.length)
    (hrecords : req.preferredRecordSyntax = pr.preferredRecordSyntax →
      ∀ nprl, res.records = some (.databaseOrSurDiagnostics nprl) →
        ∃ m : Nat, m ≤ set.length ∧ m < 2147483648 ∧ nprl = window set 1 m)
    (h : handleSearch impl f closed req hitCount (b :: answers) = some r)
    (hanswers : req.preferredRecordSyntax = pr.preferredRecordSyntax →
      ∀ (k : Nat) req' a, r.sent[k]? = some req' → answers[k]? = some a →
        AnswersFrom set req' a) : OpenedIn impl pr set r.frontend := by
  have hnot : ¬ ((f.sets.lookup req.resultSetName).isSome && !req.replaceIndicator) = true := by
    rcases hnew with hnone | hreplace
    · simp [hnone]
    · simp [hreplace]
  rw [handleSearch, if_neg hnot] at h
  simp only [hb] at h
  obtain ⟨handled, hhandled, rfl⟩ := Option.map_eq_some_iff.mp h
  refine ⟨handled.set, ?_, ?_⟩
  · simp only [hname, AList.lookup_insert]
  by_cases hsyntax : req.preferredRecordSyntax = pr.preferredRecordSyntax
  · by_cases hmakes : MakesList res.records 1 (⟨res.resultCount, []⟩ : ResultSet ρ)
        req.preferredRecordSyntax
    · obtain ⟨⟨nprl, hnprl⟩, -, hany⟩ := hmakes
      obtain ⟨m, hm, hint, rfl⟩ := hrecords hsyntax nprl hnprl
      rw [hnprl] at hhandled
      obtain ⟨n, -, hn, hnint, -, hset, -⟩ :=
        handleRecords_made hprefetch hcount hm hint hany hhandled (hanswers hsyntax)
      rw [hset, hsyntax]
      refine ⟨hcount, fun l hl => ?_⟩
      have hnone : listOf pr (⟨res.resultCount, []⟩ : ResultSet ρ) = none := rfl
      rw [listOf_append hnone n] at hl
      obtain rfl := Option.some.inj hl
      exact ⟨n, hn, hnint, rfl⟩
    · rw [handleRecords_unchanged hhandled hmakes]
      exact ⟨hcount, fun l hl => by cases hl⟩
  · -- a list of another syntax
    obtain ⟨hhits, hlists⟩ := handleRecords_lists hhandled
    refine ⟨hhits.trans hcount, fun l hl => ?_⟩
    have hmem := List.mem_of_find?_eq_some hl
    have hcmp := List.find?_some hl
    rcases hlists with heq | ⟨l', hl', heq⟩
    · rw [heq] at hmem
      cases hmem
    · rw [heq] at hmem
      obtain rfl := List.mem_singleton.mp hmem
      rw [RecordList.cmp, decide_eq_true_eq, hl'] at hcmp
      exact absurd hcmp hsyntax

end Search

/-! ## What a present request shows -/

theorem fetched_map (closed : Bool) (res : PresentResponse ρ) (b : Answer ρ)
    (hb : b.response = some (.present res)) :
    fetched ⟨closed, some (.present { (res.map some) with
      records := res.records.map (Records.map some) })⟩ = (fetched b).map some := by
  rw [fetched, fetched, hb]
  simp only
  cases res.records with
  | none => rfl
  | some records =>
    cases records with
    | databaseOrSurDiagnostics nprl =>
      simp only [Option.map_some, Records.map, NamePlusRecordList.items, List.map_take]
    | nonSurrogateDiagnostic d => rfl
    | multipleNonSurDiagnostics ds => rfl

theorem fetched_of_not_present {b : Answer ρ} (hb : ∀ res, b.response ≠ some (.present res)) :
    fetched b = [] := by
  rw [fetched]
  split
  · rename_i res hres
    exact absurd hres (hb res)
  · rfl

/-- A window inside the list. -/
theorem fetched_localResponse {l : RecordList ρ} (hint : l.nprList.length < 2147483648)
    {first number : Int} (hfirst : 1 ≤ first) (hnumber : 0 ≤ number)
    (hin : first - 1 + number ≤ l.nprList.length) (closed : Bool) :
    fetched ⟨closed, some (.present (localResponse impl l (windowRequest pr first number)))⟩ =
      (((order impl set (some l)).drop (first.toNat - 1)).take number.toNat).map some := by
  have hnum : Util.toInt number = number := Util.toInt_eq (by omega) (by omega)
  have hlen := l.length_displayed impl.ascending
  rw [order_take (by omega)]
  simp only [fetched, localResponse, windowRequest, NamePlusRecordList.items, hnum]
  refine List.ext_getElem? fun i => ?_
  by_cases hi : i < number.toNat
  · have hpos : Util.toInt ((i : Int) + first - 1) = ((first.toNat - 1 + i : Nat) : Int) := by
      rw [Util.toInt_eq (by omega) (by omega)]
      omega
    have hin' : first.toNat - 1 + i < (l.displayed impl.ascending).length := by omega
    rw [List.getElem?_take_of_lt hi, List.getElem?_map, List.getElem?_range hi, Option.map_some,
      hpos, RecordList.get_eq hint (by omega), List.getElem?_map, List.getElem?_take_of_lt hi,
      List.getElem?_drop, List.getElem?_eq_getElem hin']
    rfl
  · rw [List.getElem?_eq_none, List.getElem?_eq_none]
    · rw [List.length_map, List.length_take]
      omega
    · rw [List.length_take]
      omega

section Present

variable {f : Frontend ρ} {closed : Bool} {rset : ResultSet ρ} {first number : Int}
  {answers : List (Answer ρ)} {r : Result ρ}

theorem localList_eq (hsize : set.length < 9223372036854775808) (hfirst : 1 ≤ first)
    (hnumber : 0 ≤ number) (hlast : first + number - 1 ≤ set.length) :
    localList rset (windowRequest pr first number) =
      (listOf pr rset).filter fun l => first - 1 + number ≤ l.size := by
  have hint : Util.toOdrInt (first - 1 + number) = first - 1 + number :=
    Util.toOdrInt_eq (by omega) (by omega)
  simp only [localList, windowRequest, listOf, hint]

theorem handlePresent_eq_local {req : PresentRequest}
    (hset : f.sets.lookup req.resultSetId = some rset) {l : RecordList ρ}
    (hlocal : localList rset req = some l) : handlePresent impl f closed req answers =
      some ⟨f, closed, some (.present (localResponse impl l req)), none, []⟩ := by
  rw [handlePresent]
  simp only [hset, hlocal]

theorem handlePresent_eq_forward {req : PresentRequest}
    (hset : f.sets.lookup req.resultSetId = some rset) (hlocal : localList rset req = none) :
    handlePresent impl f closed req answers =
      forwardPresent impl f closed rset req answers := by
  rw [handlePresent]
  simp only [hset, hlocal]

theorem handlePresent_local (hsize : set.length < 9223372036854775808) (hfirst : 1 ≤ first)
    (hnumber : 0 ≤ number) (hlast : first + number - 1 ≤ set.length)
    (hset : f.sets.lookup pr.resultSetId = some rset) {l : RecordList ρ}
    (hint : l.nprList.length < 2147483648) (hl : listOf pr rset = some l)
    (hin : first - 1 + number ≤ l.nprList.length) :
    handlePresent impl f closed (windowRequest pr first number) answers =
      some ⟨f, closed, some (.present (localResponse impl l (windowRequest pr first number))), none,
        []⟩ := by
  have hset' : f.sets.lookup (windowRequest pr first number).resultSetId = some rset := hset
  refine handlePresent_eq_local hset' ?_
  rw [localList_eq hsize hfirst hnumber hlast, hl, Option.filter_some_pos]
  rw [RecordList.size_eq hint]
  exact decide_eq_true hin

theorem handlePresent_forward (hsize : set.length < 9223372036854775808) (hfirst : 1 ≤ first)
    (hnumber : 0 ≤ number) (hlast : first + number - 1 ≤ set.length)
    (hset : f.sets.lookup pr.resultSetId = some rset)
    (hint : ∀ l ∈ listOf pr rset, l.nprList.length < 2147483648)
    (hnot : ∀ l ∈ listOf pr rset, ¬ first - 1 + number ≤ l.nprList.length) :
    handlePresent impl f closed (windowRequest pr first number) answers =
      forwardPresent impl f closed rset (windowRequest pr first number) answers := by
  have hset' : f.sets.lookup (windowRequest pr first number).resultSetId = some rset := hset
  refine handlePresent_eq_forward hset' ?_
  rw [localList_eq hsize hfirst hnumber hlast, Option.filter_eq_none_iff]
  intro l hl
  rw [decide_eq_true_eq, RecordList.size_eq (hint l hl)]
  exact hnot l hl

/-- What the target returns is passed on as it is. -/
structure PassesOn (pr : PresentRequest) (set : List ρ) (rset : ResultSet ρ) (first : Int)
    (answers : List (Answer ρ)) (r : Result ρ) : Prop where
  same : r.frontend.sets.lookup pr.resultSetId = some rset
  shown : fetched ⟨r.closed, r.response⟩ = (answers.flatMap fetched).map some
  part : ∃ m, answers.flatMap fetched = (set.drop (first.toNat - 1)).take m
  first : listOf pr rset = none → first = 1 → answers.flatMap fetched = []

/-- The list is made, and what is returned is taken from it. -/
structure Makes (impl : Impl ρ) (pr : PresentRequest) (set : List ρ) (rset : ResultSet ρ)
    (first : Int) (answers : List (Answer ρ)) (r : Result ρ) (n : Nat) : Prop where
  none : listOf pr rset = none
  first : first = 1
  le : n ≤ set.length
  int : n < 2147483648
  records : answers.flatMap fetched = set.take n
  made : r.frontend.sets.lookup pr.resultSetId = some { rset with
    recordLists := rset.recordLists ++ [sortedFirst impl pr.preferredRecordSyntax set n] }
  shown : ∃ m, m ≤ n ∧ fetched ⟨r.closed, r.response⟩ =
    (((sortedFirst impl pr.preferredRecordSyntax set n).displayed impl.ascending).take m).map some

theorem passesOn_of_empty {b : Answer ρ}
    (hsame : r.frontend.sets.lookup pr.resultSetId = some rset) (hb : fetched b = [])
    (hshown : fetched ⟨r.closed, r.response⟩ = []) : PassesOn pr set rset first [b] r := by
  have hnil : [b].flatMap fetched = [] := by
    rw [List.flatMap_singleton, hb]
  refine ⟨hsame, ?_, ⟨0, ?_⟩, fun _ _ => hnil⟩
  · rw [hshown, hnil]
    rfl
  · rw [hnil]
    rfl

/-- The records of a response that no list is made from. -/
theorem passesOn_of_not_makes {b : Answer ρ} {res : PresentResponse ρ} (hfirst : 1 ≤ first)
    (hsame : r.frontend.sets.lookup pr.resultSetId = some rset)
    (hres : b.response = some (.present res))
    (hb : AnswersFrom set (windowRequest pr first number) b)
    (hnot : ¬ MakesList res.records first rset pr.preferredRecordSyntax)
    (hshown : fetched ⟨r.closed, r.response⟩ = (fetched b).map some) :
    PassesOn pr set rset first [b] r := by
  refine ⟨hsame, ?_, ?_, ?_⟩
  · rw [List.flatMap_singleton]
    exact hshown
  · obtain ⟨m, -, -, hm⟩ := fetched_from hb
    have hindex : (first - 1).toNat = first.toNat - 1 := by omega
    simp only [windowRequest, hindex] at hm
    exact ⟨m, by rw [List.flatMap_singleton, hm]⟩
  · intro hnone hone
    rw [List.flatMap_singleton, fetched]
    simp only [hres]
    split
    · rename_i nprl hnprl
      exact absurd ⟨⟨nprl, hnprl⟩, hone, listOf_eq_none_iff.mp hnone⟩ hnot
    · rfl

theorem fetched_map_of_not_present {b : Answer ρ}
    (hb : ∀ res, b.response ≠ some (.present res)) (closed : Bool) :
    fetched ⟨closed, b.response.map (Gdu.map some)⟩ = [] := by
  refine fetched_of_not_present fun res hmap => ?_
  obtain ⟨gdu, hgdu, hpresent⟩ := Option.map_eq_some_iff.mp hmap
  cases gdu with
  | search res => cases hpresent
  | present res => exact hb res hgdu
  | other encoding => cases hpresent

theorem makes_of_makesList {b : Answer ρ} {res : PresentResponse ρ} {handled : Handled ρ}
    {bClosed : Option Bool} (hprefetch : impl.prefetch < 2147483648)
    (hlast : first + number - 1 ≤ set.length) (hopen : Opened impl pr set rset)
    (hres : b.response = some (.present res))
    (hb : AnswersFrom set (windowRequest pr first number) b)
    (hmakes : MakesList res.records first rset pr.preferredRecordSyntax)
    (hhandled : handleRecords impl res.records first rset pr.preferredRecordSyntax
      pr.recordComposition pr.resultSetId answers = some handled)
    (hrest : List.Forall₂ (AnswersFrom set) handled.sent answers) :
    ∃ n, Makes impl pr set rset first (b :: answers)
      ⟨{ f with sets := f.sets.insert pr.resultSetId handled.set }, closed,
        some (.present { (res.map some) with records := handled.records }), bClosed, handled.sent⟩
      n := by
  obtain ⟨⟨nprl, hnprl⟩, rfl, hany⟩ := hmakes
  obtain ⟨m, hm, hint, rfl⟩ := hb res nprl hres hnprl
  simp only [windowRequest] at hm hnprl
  have hmlen : m ≤ set.length := by omega
  rw [hnprl] at hhandled
  obtain ⟨n, hmn, hn, hnint, htake, hlist, hrecords⟩ :=
    handleRecords_made hprefetch hopen.hits hmlen hint hany hhandled
      fun k req a hreq ha => get_of_forall₂ hrest hreq ha
  have hlength := hrest.length_eq
  have hsent : answers.take handled.sent.length = answers :=
    List.take_of_length_le (by omega)
  have hfetched : fetched b = set.take m := by
    simp only [fetched, hres, hnprl, items_window]
    rfl
  refine ⟨n, listOf_eq_none_iff.mpr hany, rfl, hn, hnint, ?_, ?_, m, hmn, ?_⟩
  · rw [List.flatMap_cons, hfetched, htake, hsent]
  · simp only [AList.lookup_insert, hlist]
  · simp only [fetched, hrecords, NamePlusRecordList.items, Int.toNat_natCast]
    rw [← List.map_take, List.take_take, Nat.min_self]

theorem forward_cases (hprefetch : impl.prefetch < 2147483648) (hfirst : 1 ≤ first)
    (hlast : first + number - 1 ≤ set.length)
    (hset : f.sets.lookup pr.resultSetId = some rset) (hopen : Opened impl pr set rset)
    (h : forwardPresent impl f closed rset (windowRequest pr first number) answers = some r)
    (hanswers : List.Forall₂ (AnswersFrom set) (r.requests (windowRequest pr first number))
      answers) :
    PassesOn pr set rset first answers r ∨ ∃ n, Makes impl pr set rset first answers r n := by
  cases answers with
  | nil => cases h
  | cons b answers =>
    rw [forwardPresent] at h
    simp only at h
    split at h
    · rename_i res hres
      obtain ⟨handled, hhandled, rfl⟩ := Option.map_eq_some_iff.mp h
      simp only [Result.requests, Option.isSome_some, if_true, List.singleton_append] at hanswers
      obtain ⟨hb, hrest⟩ := List.forall₂_cons.mp hanswers
      by_cases hmakes : MakesList res.records first rset pr.preferredRecordSyntax
      · exact .inr (makes_of_makesList hprefetch hlast hopen hres hb hmakes hhandled hrest)
      · -- nothing more is sent
        obtain rfl := handleRecords_unchanged hhandled hmakes
        obtain rfl : answers = [] := List.eq_nil_of_length_eq_zero hrest.length_eq.symm
        exact .inl (passesOn_of_not_makes hfirst (AList.lookup_insert _) hres hb hmakes
          (fetched_map _ res b hres))
    · rename_i hres
      cases h
      simp only [Result.requests, Option.isSome_some, if_true, List.append_nil] at hanswers
      obtain rfl : answers = [] :=
        List.eq_nil_of_length_eq_zero (List.forall₂_cons.mp hanswers).2.length_eq.symm
      exact .inl (passesOn_of_empty hset (fetched_of_not_present hres)
        (fetched_map_of_not_present hres _))

end Present

section Step

variable {s s' : Session ρ} {a : Asks ρ}

theorem list_of_lookup {rset : ResultSet ρ}
    (h : s.frontend.sets.lookup pr.resultSetId = some rset) : s.list pr = listOf pr rset := by
  rw [Session.list, h]
  rfl

/-- What a step does. -/
inductive Presents (impl : Impl ρ) (pr : PresentRequest) (set : List ρ) (s : Session ρ)
    (a : Asks ρ) (s' : Session ρ) : Prop where
  | fromList {l : RecordList ρ} : s.list pr = some l → s'.list pr = some l → a.records = [] →
      s'.pages = s.pages ++ [⟨a.start.toNat,
        (((order impl set (some l)).drop (a.start.toNat - 1)).take a.number.toNat).map some⟩] →
      Presents impl pr set s a s'
  | passedOn {m : Nat} : s'.list pr = s.list pr →
      a.records = (set.drop (a.start.toNat - 1)).take m →
      (s.list pr = none → a.start = 1 → a.records = []) →
      s'.pages = s.pages ++ [⟨a.start.toNat, a.records.map some⟩] → Presents impl pr set s a s'
  | made {m n : Nat} : s.list pr = none → a.start = 1 → m ≤ n → n ≤ set.length →
      a.records = set.take n →
      s'.list pr = some (sortedFirst impl pr.preferredRecordSyntax set n) →
      s'.pages = s.pages ++ [⟨1,
        (((sortedFirst impl pr.preferredRecordSyntax set n).displayed impl.ascending).take m).map
          some⟩] →
      Presents impl pr set s a s'

theorem step_local (hsize : set.length < 9223372036854775808)
    (hset : ∃ rset, s.frontend.sets.lookup pr.resultSetId = some rset ∧ Opened impl pr set rset)
    {l : RecordList ρ} (hl : s.list pr = some l) (hfirst : 1 ≤ a.start) (hnumber : 0 ≤ a.number)
    (hlast : a.start + a.number - 1 ≤ set.length)
    (hin : a.start - 1 + a.number ≤ l.nprList.length) :
    handlePresent impl s.frontend a.closed (windowRequest pr a.start a.number) a.answers =
      some ⟨s.frontend, a.closed, some (.present (localResponse impl l
        (windowRequest pr a.start a.number))), none, []⟩ ∧
    step impl pr s a = some ⟨s.frontend, s.pages ++ [⟨a.start.toNat,
      (((order impl set (some l)).drop (a.start.toNat - 1)).take a.number.toNat).map some⟩]⟩ := by
  obtain ⟨rset, hlookup, hopen⟩ := hset
  rw [list_of_lookup hlookup] at hl
  obtain ⟨n, hn, hint, rfl⟩ := hopen.list l hl
  have hlen : (sortedFirst impl pr.preferredRecordSyntax set n).nprList.length = n :=
    length_sortedFirst hn _
  have hpresent : handlePresent impl s.frontend a.closed (windowRequest pr a.start a.number)
      a.answers = some _ :=
    handlePresent_local hsize hfirst hnumber hlast hlookup (by omega) hl hin
  refine ⟨hpresent, ?_⟩
  rw [step, hpresent, Option.map_some, fetched_localResponse (by omega) hfirst hnumber hin]

theorem step_cases (hprefetch : impl.prefetch < 2147483648)
    (hsize : set.length < 9223372036854775808) (hopened : OpenedIn impl pr set s.frontend)
    (hserves : Serves impl pr set s a) (h : step impl pr s a = some s') :
    OpenedIn impl pr set s'.frontend ∧ Presents impl pr set s a s' := by
  have hopened' := hopened
  obtain ⟨rset, hset, hopen⟩ := hopened
  by_cases hlocal : ∃ l, listOf pr rset = some l ∧ a.start - 1 + a.number ≤ l.nprList.length
  · obtain ⟨l, hl, hin⟩ := hlocal
    have hlist : s.list pr = some l := (list_of_lookup hset).trans hl
    obtain ⟨hpresent, hstep⟩ := step_local hsize hopened' hlist hserves.start hserves.number
      hserves.last hin
    rw [hstep] at h
    cases h
    have hnil : a.answers = [] := List.forall₂_nil_left_iff.mp (hserves.answers _ hpresent)
    refine ⟨hopened', .fromList hlist hlist ?_ rfl⟩
    rw [Asks.records, hnil, List.flatMap_nil]
  · push Not at hlocal
    have hnot : ∀ l ∈ listOf pr rset, ¬ a.start - 1 + a.number ≤ l.nprList.length :=
      fun l hl => Int.not_le.mpr (hlocal l hl)
    obtain ⟨r, hr, rfl⟩ := Option.map_eq_some_iff.mp h
    have hforward := hr
    rw [handlePresent_forward hsize hserves.start hserves.number hserves.last hset hopen.length_lt
      hnot] at hforward
    rcases forward_cases hprefetch hserves.start hserves.last hset hopen hforward
      (hserves.answers r hr) with hpass | ⟨n, hmakes⟩
    · obtain ⟨m, hpart⟩ := hpass.part
      refine ⟨⟨rset, hpass.same, hopen⟩, .passedOn ?_ hpart ?_ ?_⟩
      · rw [list_of_lookup hset]
        exact list_of_lookup hpass.same
      · rw [list_of_lookup hset]
        exact hpass.first
      · simp only [hpass.shown]
        rfl
    · obtain ⟨m, hmn, hshown⟩ := hmakes.shown
      have hlist : _ = some (sortedFirst impl pr.preferredRecordSyntax set n) :=
        listOf_append hmakes.none n
      refine ⟨⟨_, hmakes.made, hopen.hits, ?_⟩, .made ?_ hmakes.first hmn hmakes.le hmakes.records
        ?_ ?_⟩
      · intro l hl
        rw [hlist] at hl
        obtain rfl := Option.some.inj hl
        exact ⟨n, hmakes.le, hmakes.int, rfl⟩
      · rw [list_of_lookup hset, hmakes.none]
      · exact (list_of_lookup hmakes.made).trans hlist
      · simp only [hshown, hmakes.first]
        rfl

end Step

end FilterSort
end Metaproxy
