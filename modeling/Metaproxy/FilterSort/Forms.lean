import Mathlib.Data.Set.Defs
import Metaproxy.FilterSort.Pages
import Metaproxy.Lib.Run

/-!
# FilterSort.Forms

The form of the records that a client sees. A list is kept for a record syntax, but the composition
that it was fetched under is forgotten; and what a search brings along may be under another
composition than what is fetched ahead after it.

* `handleRecords_forms` — what comes from the target, comes out.
* `serve_inForm` — one search or present request.
* `reach_inForm` — a run of them.
-/

namespace Metaproxy
namespace FilterSort
namespace Forms

open Lib Z3950

variable {ρ : Type*}

/-- The records that a target returns in a syntax and composition, and the composition that it takes
for the records of a search response. -/
structure Target (ρ : Type*) where
  returns : Option Oid → Option RecordComposition → Set ρ
  piggybacked : SearchRequest → (hits : Int) → Option RecordComposition

section

variable {α : Type*}

def recordsOf : Option (Gdu α) → Option (Records α)
  | some (.search res) => res.records
  | some (.present res) => res.records
  | _ => none

def itemsOf : Option (Records α) → List α
  | some (.databaseOrSurDiagnostics nprl) => nprl.items
  | _ => []

def hits : Option (Gdu α) → Int
  | some (.search res) => res.resultCount
  | _ => 0

theorem itemsOf_map (records : Option (Records ρ)) :
    itemsOf (records.map (Records.map some)) = (itemsOf records).map some := by
  cases records with
  | none => rfl
  | some records =>
    cases records with
    | databaseOrSurDiagnostics nprl => exact List.map_take.symm
    | nonSurrogateDiagnostic d => rfl
    | multipleNonSurDiagnostics ds => rfl

theorem recordsOf_map (response : Option (Gdu ρ)) :
    recordsOf (response.map (Gdu.map some)) = (recordsOf response).map (Records.map some) := by
  cases response with
  | none => rfl
  | some gdu => cases gdu <;> rfl

theorem hits_map (response : Option (Gdu ρ)) :
    hits (response.map (Gdu.map some)) = hits response := by
  cases response with
  | none => rfl
  | some gdu => cases gdu <;> rfl

end

/-! ## Requests -/

inductive Asked where
  | search (req : SearchRequest) (hitCount : Int)
  | present (req : PresentRequest)

namespace Asked

def resultSet : Asked → String
  | search req _ => req.resultSetName
  | present req => req.resultSetId

def syntax_ : Asked → Option Oid
  | search req _ => req.preferredRecordSyntax
  | present req => req.preferredRecordSyntax

/-- The composition of the records that are asked for. -/
def comp {α : Type*} (t : Target ρ) (response : Option (Gdu α)) : Asked → Option RecordComposition
  | search req _ => t.piggybacked req (hits response)
  | present req => req.recordComposition

/-- A search does away with the lists of the result set. -/
def hasList (f : Frontend ρ) : Asked → Bool
  | search _ _ => false
  | present req => ((f.sets.lookup req.resultSetId).bind (listOf req)).isSome

end Asked

/-- A request, and the answers to what is sent for it. -/
structure Turn (ρ : Type*) where
  asked : Asked
  closed : Bool
  answers : List (Answer ρ)

def Turn.handle (impl : Impl ρ) (f : Frontend ρ) (e : Turn ρ) : Option (Result ρ) :=
  match e.asked with
  | .search req hitCount => handleSearch impl f e.closed req hitCount e.answers
  | .present req => handlePresent impl f e.closed req e.answers

/-- A response, and what was asked for. -/
structure Shown (ρ : Type*) where
  syntax_ : Option Oid
  comp : Option RecordComposition
  records : List (Option ρ)

structure Session (ρ : Type*) where
  frontend : Frontend ρ
  /-- What the list of a result set and syntax was fetched for. The program does not have this. -/
  fetchedFor : String → Option Oid → Option RecordComposition
  shown : List (Shown ρ)

def note (fetchedFor : String → Option Oid → Option RecordComposition) (name : String)
    (syntax_ : Option Oid) (comp : Option RecordComposition) :
    String → Option Oid → Option RecordComposition :=
  fun name' syntax' =>
    if name' = name ∧ syntax' = syntax_ then comp else fetchedFor name' syntax'

def Session.serve (impl : Impl ρ) (t : Target ρ) (s : Session ρ) (e : Turn ρ) :
    Option (Session ρ) :=
  (e.handle impl s.frontend).map fun r =>
    let comp := e.asked.comp t r.response
    { frontend := r.frontend
      fetchedFor :=
        if r.forwarded.isSome && !e.asked.hasList s.frontend then
          note s.fetchedFor e.asked.resultSet e.asked.syntax_ comp
        else s.fetchedFor
      shown := s.shown ++ [⟨e.asked.syntax_, comp, itemsOf (recordsOf r.response)⟩] }

/-! ## What is assumed, and what is to hold -/

/-- Each request that is sent is answered with records in the form it asks for. -/
structure Returns (impl : Impl ρ) (t : Target ρ) (s : Session ρ) (e : Turn ρ) : Prop where
  own : ∀ b ∈ e.answers.head?, ∀ npr ∈ itemsOf (recordsOf b.response),
    npr ∈ t.returns e.asked.syntax_ (e.asked.comp t b.response)
  ahead : ∀ r, e.handle impl s.frontend = some r → ∀ (k : Nat) req b, r.sent[k]? = some req →
    e.answers.tail[k]? = some b → ∀ npr ∈ fetched b,
      npr ∈ t.returns req.preferredRecordSyntax req.recordComposition

/-- What is fetched ahead after a search is in the form of the records that came with it, and a list
that is used has the form of the request. -/
def Keeps (t : Target ρ) (s : Session ρ) (e : Turn ρ) : Prop :=
  match e.asked with
  | .search req _ =>
    ∀ b ∈ e.answers.head?, (∀ b' ∈ e.answers.tail, fetched b' = []) ∨
      t.returns req.preferredRecordSyntax (piggybackToRecordComposition (hits b.response) req) ⊆
        t.returns req.preferredRecordSyntax (t.piggybacked req (hits b.response))
  | .present req =>
    ∀ rset l, s.frontend.sets.lookup req.resultSetId = some rset → localList rset req = some l →
      l.nprList ≠ [] → 0 < Util.toInt req.numberOfRecordsRequested →
        t.returns req.preferredRecordSyntax
            (s.fetchedFor req.resultSetId req.preferredRecordSyntax) ⊆
          t.returns req.preferredRecordSyntax req.recordComposition

/-- Every record that was shown is in the form that was asked for. -/
def InForm (t : Target ρ) (s : Session ρ) : Prop :=
  ∀ shown ∈ s.shown, ∀ npr, some npr ∈ shown.records → npr ∈ t.returns shown.syntax_ shown.comp

/-- The records of a list are in the form that it was fetched for. -/
def ListsInForm (t : Target ρ) (s : Session ρ) : Prop :=
  ∀ name rset, s.frontend.sets.lookup name = some rset → ∀ l ∈ rset.recordLists,
    ∀ npr ∈ l.nprList, npr ∈ t.returns l.syntax_ (s.fetchedFor name l.syntax_)

/-! ## `handle_records` -/

theorem mem_of_get {l : RecordList ρ} {pos : Int} {ascending : Bool} {npr : ρ}
    (h : l.get pos ascending = some npr) : npr ∈ l.nprList :=
  List.mem_of_getElem? h

/-- Every record that was fetched ahead came with the answer to a request in the syntax and
composition of the list. -/
theorem mem_loop {p : Prefetch} {answers : List (Answer ρ)} {i : Nat} {pos : Int}
    {r : List ρ × List PresentRequest} (h : p.loop answers i pos = some r) {npr : ρ}
    (hnpr : npr ∈ r.1) : ∃ (k : Nat) (req : PresentRequest) (b : Answer ρ), r.2[k]? = some req ∧
      answers[k]? = some b ∧ npr ∈ fetched b ∧ req.preferredRecordSyntax = p.syntax_ ∧
      req.recordComposition = p.comp := by
  induction answers generalizing i pos r with
  | nil =>
    rw [Prefetch.loop] at h
    split at h
    · cases h
    · cases h
      cases hnpr
  | cons b answers ih =>
    rw [Prefetch.loop] at h
    split at h
    · obtain ⟨r', hr', rfl⟩ := Option.map_eq_some_iff.mp h
      rcases List.mem_append.mp hnpr with hfirst | hrest
      · exact ⟨0, p.request pos, b, rfl, rfl, hfirst, rfl, rfl⟩
      · obtain ⟨k, req, b', hreq, hb', hmem, hform⟩ := ih hr' hrest
        exact ⟨k + 1, req, b', hreq, hb', hmem, hform⟩
    · cases h
      cases hnpr

section HandleRecords

variable {impl : Impl ρ} {records : Option (Records ρ)} {startPos : Int} {s : ResultSet ρ}
  {syntax_ : Option Oid} {comp : Option RecordComposition} {resultSetId : String}
  {answers : List (Answer ρ)} {h : Handled ρ} {t : Target ρ} {wanted : Set ρ}

/-- There is a list more, of records that are wanted, or there is none. -/
structure AddsWanted (wanted : Set ρ) (s : ResultSet ρ) (syntax_ : Option Oid) (h : Handled ρ) :
    Prop where
  shown : ∀ npr, some npr ∈ itemsOf h.records → npr ∈ wanted
  lists : h.set.recordLists = s.recordLists ∨
    s.recordLists.any (fun l => l.cmp syntax_) = false ∧ ∃ l : RecordList ρ, l.syntax_ = syntax_ ∧
      (∀ npr ∈ l.nprList, npr ∈ wanted) ∧ h.set.recordLists = s.recordLists ++ [l]

/-- The records of a response that no list is made from. -/
theorem addsWanted_of_map (s : ResultSet ρ) (syntax_ : Option Oid)
    (hrecords : ∀ npr ∈ itemsOf records, npr ∈ wanted) :
    AddsWanted wanted s syntax_ ⟨s, records.map (Records.map some), []⟩ := by
  refine ⟨fun npr hnpr => ?_, .inl rfl⟩
  simp only [itemsOf_map] at hnpr
  obtain ⟨npr', hnpr', heq⟩ := List.mem_map.mp hnpr
  obtain rfl := Option.some.inj heq
  exact hrecords _ hnpr'

theorem handleRecords_forms
    (hh : handleRecords impl records startPos s syntax_ comp resultSetId answers = some h)
    (hrecords : ∀ npr ∈ itemsOf records, npr ∈ wanted)
    (hahead : ∀ (k : Nat) req b, h.sent[k]? = some req → answers[k]? = some b →
      ∀ npr ∈ fetched b, npr ∈ t.returns req.preferredRecordSyntax req.recordComposition)
    (hform : (∀ b ∈ answers, fetched b = []) ∨ t.returns syntax_ comp ⊆ wanted) :
    AddsWanted wanted s syntax_ h := by
  by_cases hmakes : MakesList records startPos s syntax_
  · obtain ⟨⟨nprl, rfl⟩, rfl, hany⟩ := hmakes
    simp only [handleRecords, ne_eq, not_true_eq_false, if_false, hany, Bool.false_eq_true] at hh
    obtain ⟨r, hr, rfl⟩ := Option.map_eq_some_iff.mp hh
    have hfetched : ∀ npr ∈ r.1, npr ∈ wanted := by
      intro npr hnpr
      obtain ⟨k, req, b, hreq, hb, hmem, hoid, hcomp⟩ := mem_loop hr hnpr
      rcases hform with hnone | hsub
      · rw [hnone b (List.mem_of_getElem? hb)] at hmem
        cases hmem
      · have hreturned := hahead k req b hreq hb npr hmem
        rw [hoid, hcomp] at hreturned
        exact hsub hreturned
    have hlist : ∀ npr ∈ (RecordList.sort impl.score ⟨syntax_, nprl.items ++ r.1⟩).nprList,
        npr ∈ wanted := by
      intro npr hnpr
      rw [RecordList.sort, List.mem_insertionSort, List.mem_append] at hnpr
      exact hnpr.elim (hrecords npr) (hfetched npr)
    refine ⟨fun npr hnpr => ?_, .inr ⟨hany, _, rfl, hlist, rfl⟩⟩
    obtain ⟨i, -, hget⟩ := List.mem_map.mp (List.mem_of_mem_take hnpr)
    exact hlist npr (mem_of_get hget)
  · rw [handleRecords_unchanged hh hmakes]
    exact addsWanted_of_map s syntax_ hrecords

end HandleRecords

/-! ## Steps -/

section Step

variable {impl : Impl ρ} {t : Target ρ} {s s' : Session ρ} {e : Turn ρ} {r : Result ρ}

/-- The result set of that name is `new`, and the others are as they were. -/
def Puts (f : Frontend ρ) (name : String) (new : ResultSet ρ) (f' : Frontend ρ) : Prop :=
  ∀ name' rset, f'.sets.lookup name' = some rset →
    name' = name ∧ rset = new ∨ name' ≠ name ∧ f.sets.lookup name' = some rset

def Wanted (t : Target ρ) (e : Turn ρ) (r : Result ρ) : Set ρ :=
  t.returns e.asked.syntax_ (e.asked.comp t r.response)

/-- A request is answered here, or sent to the target. -/
inductive Outcome (t : Target ρ) (s : Session ρ) (e : Turn ρ) (r : Result ρ) : Prop where
  | answered : r.frontend = s.frontend → r.forwarded = none →
      (∀ npr, some npr ∈ itemsOf (recordsOf r.response) → npr ∈ Wanted t e r) → Outcome t s e r
  | sent {base : ResultSet ρ} {h : Handled ρ} : r.forwarded.isSome = true →
      base.recordLists = [] ∨ s.frontend.sets.lookup e.asked.resultSet = some base →
      e.asked.hasList s.frontend = base.recordLists.any (fun l => l.cmp e.asked.syntax_) →
      AddsWanted (Wanted t e r) base e.asked.syntax_ h →
      Puts s.frontend e.asked.resultSet h.set r.frontend → recordsOf r.response = h.records →
      Outcome t s e r

theorem note_of_ne {fetchedFor : String → Option Oid → Option RecordComposition}
    {name name' : String} {syntax_ syntax' : Option Oid} (comp : Option RecordComposition)
    (h : ¬ (name' = name ∧ syntax' = syntax_)) :
    note fetchedFor name syntax_ comp name' syntax' = fetchedFor name' syntax' :=
  if_neg h

theorem note_self {fetchedFor : String → Option Oid → Option RecordComposition} {name : String}
    {syntax_ : Option Oid} (comp : Option RecordComposition) :
    note fetchedFor name syntax_ comp name syntax_ = comp :=
  if_pos ⟨rfl, rfl⟩

theorem search_outcome {req : SearchRequest} {hitCount : Int}
    (hasked : e.asked = .search req hitCount) (hreturns : Returns impl t s e) (hkeeps : Keeps t s e)
    (hr : e.handle impl s.frontend = some r) : Outcome t s e r := by
  have hputs : ∀ new, Puts s.frontend req.resultSetName new
      { s.frontend with
        sets := (s.frontend.sets.erase req.resultSetName).insert req.resultSetName new } := by
    intro new name' rset hlookup
    rcases Table.lookup_insert_iff.mp hlookup with ⟨hname, hnew⟩ | ⟨hname, hold⟩
    · exact .inl ⟨hname, hnew.symm⟩
    · exact .inr ⟨hname, Table.lookup_of_erase hold⟩
  obtain ⟨hown, hahead⟩ := hreturns
  have hahead := hahead r hr
  obtain ⟨asked, closed, answers⟩ := e
  cases hasked
  simp only [Keeps] at hkeeps
  rw [Turn.handle] at hr
  simp only at hr hown hahead
  have hrefused : ∀ r : Result ρ, r = ⟨s.frontend, closed, some (.search
      (.diagnostic .resultSetExistsAndReplaceIndicatorOff [])), none, []⟩ →
      Outcome t s ⟨.search req hitCount, closed, answers⟩ r := by
    rintro r rfl
    exact .answered rfl rfl fun npr hnpr => by cases hnpr
  cases answers with
  | nil =>
    rw [handleSearch] at hr
    split at hr
    · exact hrefused r (Option.some.inj hr).symm
    · cases hr
  | cons b answers =>
    rw [handleSearch] at hr
    split at hr
    · exact hrefused r (Option.some.inj hr).symm
    · have hown := hown b rfl
      have hkeeps := hkeeps b rfl
      simp only at hr
      split at hr
      · rename_i res hres
        obtain ⟨h, hh, rfl⟩ := Option.map_eq_some_iff.mp hr
        rw [hres] at hown hkeeps
        have hadds := handleRecords_forms hh hown hahead hkeeps
        exact .sent rfl (.inl rfl) rfl hadds (hputs h.set) rfl
      · obtain rfl := Option.some.inj hr
        have hadds : AddsWanted (t.returns req.preferredRecordSyntax
            (t.piggybacked req (hits (b.response.map (Gdu.map some))))) (⟨hitCount, []⟩ : ResultSet ρ)
            req.preferredRecordSyntax _ :=
          addsWanted_of_map _ _ (by rw [hits_map]; exact hown)
        exact .sent rfl (.inl rfl) rfl hadds (hputs _) (recordsOf_map _)

theorem local_outcome {req : PresentRequest} (hasked : e.asked = .present req) {rset : ResultSet ρ}
    (hset : s.frontend.sets.lookup req.resultSetId = some rset) {l : RecordList ρ}
    (hlocal : localList rset req = some l) (hlists : ListsInForm t s) (hkeeps : Keeps t s e)
    (hr : e.handle impl s.frontend = some r) : Outcome t s e r := by
  obtain ⟨asked, closed, answers⟩ := e
  cases hasked
  rw [Turn.handle] at hr
  simp only [handlePresent_eq_local hset hlocal] at hr
  obtain rfl := Option.some.inj hr
  refine .answered rfl rfl fun npr hnpr => ?_
  obtain ⟨i, hi, hget⟩ := List.mem_map.mp (List.mem_of_mem_take hnpr)
  have hmem := mem_of_get hget
  have hpos : 0 < Util.toInt req.numberOfRecordsRequested := by
    have := List.mem_range.mp hi
    omega
  obtain ⟨hfind, -⟩ := Option.filter_eq_some_iff.mp hlocal
  have hcmp := List.find?_some hfind
  simp only [RecordList.cmp, decide_eq_true_eq] at hcmp
  have hform := hlists _ rset hset l (List.mem_of_find?_eq_some hfind) npr hmem
  rw [hcmp] at hform
  exact hkeeps rset l hset hlocal (List.ne_nil_of_mem hmem) hpos hform

theorem forward_outcome {req : PresentRequest} (hasked : e.asked = .present req)
    {rset : ResultSet ρ} (hset : s.frontend.sets.lookup req.resultSetId = some rset)
    (hlocal : localList rset req = none) (hreturns : Returns impl t s e)
    (hr : e.handle impl s.frontend = some r) : Outcome t s e r := by
  obtain ⟨hown, hahead⟩ := hreturns
  have hahead := hahead r hr
  obtain ⟨asked, closed, answers⟩ := e
  cases hasked
  rw [Turn.handle] at hr
  simp only [handlePresent_eq_forward hset hlocal] at hr hown hahead
  have hhas : Asked.hasList s.frontend (.present req) =
      rset.recordLists.any (fun l => l.cmp req.preferredRecordSyntax) := by
    rw [Asked.hasList, hset, Option.bind_some, listOf, Bool.eq_iff_iff, List.find?_isSome,
      List.any_eq_true]
  cases answers with
  | nil => cases hr
  | cons b answers =>
    have hown := hown b rfl
    rw [forwardPresent] at hr
    simp only at hr
    split at hr
    · rename_i res hres
      obtain ⟨h, hh, rfl⟩ := Option.map_eq_some_iff.mp hr
      rw [hres] at hown
      -- what is fetched ahead is asked for under the composition of the request
      have hadds := handleRecords_forms hh hown hahead (.inr fun _ h => h)
      refine .sent rfl (.inr hset) hhas hadds ?_ rfl
      intro name' rset' hlookup
      rcases Table.lookup_insert_iff.mp hlookup with ⟨hname, hnew⟩ | ⟨hname, hold⟩
      · exact .inl ⟨hname, hnew.symm⟩
      · exact .inr ⟨hname, hold⟩
    · obtain rfl := Option.some.inj hr
      refine .sent rfl (.inr hset) hhas (addsWanted_of_map rset _ hown) ?_ (recordsOf_map _)
      intro name' rset' hlookup
      by_cases hname : name' = req.resultSetId
      · rw [hname, hset] at hlookup
        exact .inl ⟨hname, (Option.some.inj hlookup).symm⟩
      · exact .inr ⟨hname, hlookup⟩

theorem present_outcome {req : PresentRequest} (hasked : e.asked = .present req)
    (hlists : ListsInForm t s) (hreturns : Returns impl t s e) (hkeeps : Keeps t s e)
    (hr : e.handle impl s.frontend = some r) : Outcome t s e r := by
  cases hset : s.frontend.sets.lookup req.resultSetId with
  | none =>
    obtain ⟨asked, closed, answers⟩ := e
    cases hasked
    rw [Turn.handle] at hr
    simp only [handlePresent, hset] at hr
    obtain rfl := Option.some.inj hr
    exact .answered rfl rfl fun npr hnpr => by cases hnpr
  | some rset =>
    cases hlocal : localList rset req with
    | some l => exact local_outcome hasked hset hlocal hlists hkeeps hr
    | none => exact forward_outcome hasked hset hlocal hreturns hr

/-- The lists that were there keep their form, and a new one has the form of the request. -/
theorem AddsWanted.inForm {fetchedFor : String → Option Oid → Option RecordComposition}
    {name : String} {syntax_ : Option Oid} {comp : Option RecordComposition} {base : ResultSet ρ}
    {h : Handled ρ} (hadds : AddsWanted (t.returns syntax_ comp) base syntax_ h)
    (hold : ∀ l ∈ base.recordLists, ∀ npr ∈ l.nprList,
      npr ∈ t.returns l.syntax_ (fetchedFor name l.syntax_)) :
    ∀ l ∈ h.set.recordLists, ∀ npr ∈ l.nprList, npr ∈ t.returns l.syntax_
      ((if !base.recordLists.any fun l => l.cmp syntax_ then note fetchedFor name syntax_ comp
        else fetchedFor) name l.syntax_) := by
  intro l hl npr hnpr
  cases hany : base.recordLists.any fun l => l.cmp syntax_ with
  | true =>
    simp only [Bool.not_true, Bool.false_eq_true, if_false]
    rcases hadds.lists with hsame | ⟨hnone, -⟩
    · rw [hsame] at hl
      exact hold l hl npr hnpr
    · rw [hany] at hnone
      cases hnone
  | false =>
    simp only [Bool.not_false, if_true]
    have hkept : l ∈ base.recordLists →
        npr ∈ t.returns l.syntax_ (note fetchedFor name syntax_ comp name l.syntax_) := by
      intro hmem
      have hne : l.syntax_ ≠ syntax_ := of_decide_eq_false
        (Bool.eq_false_iff.mpr (List.any_eq_false.mp hany l hmem))
      rw [note_of_ne _ fun h => hne h.2]
      exact hold l hmem npr hnpr
    rcases hadds.lists with hsame | ⟨-, l', hoid, hnew, happend⟩
    · rw [hsame] at hl
      exact hkept hl
    · rw [happend] at hl
      rcases List.mem_append.mp hl with hmem | hmem
      · exact hkept hmem
      · obtain rfl := List.mem_singleton.mp hmem
        rw [hoid, note_self]
        exact hnew npr hnpr

theorem Outcome.listsInForm (h : Outcome t s e r) (hlists : ListsInForm t s)
    (shown : List (Shown ρ)) :
    ListsInForm t ⟨r.frontend,
      if r.forwarded.isSome && !e.asked.hasList s.frontend then
        note s.fetchedFor e.asked.resultSet e.asked.syntax_ (e.asked.comp t r.response)
      else s.fetchedFor, shown⟩ := by
  cases h with
  | answered hfrontend hforwarded _ =>
    simp only [hforwarded, Option.isSome_none, Bool.false_and, Bool.false_eq_true, if_false,
      hfrontend]
    exact hlists
  | @sent base h hforwarded hbase hhas hadds hputs _ =>
    simp only [hforwarded, hhas, Bool.true_and]
    have hold : ∀ l ∈ base.recordLists, ∀ npr ∈ l.nprList,
        npr ∈ t.returns l.syntax_ (s.fetchedFor e.asked.resultSet l.syntax_) := by
      rcases hbase with hnil | hlookup
      · rw [hnil]
        intro l hl
        cases hl
      · exact hlists _ base hlookup
    intro name rset hlookup l hl npr hnpr
    simp only at hlookup ⊢
    rcases hputs name rset hlookup with ⟨rfl, rfl⟩ | ⟨hname, hother⟩
    · exact AddsWanted.inForm hadds hold l hl npr hnpr
    · split
      · rw [note_of_ne _ fun h => hname h.1]
        exact hlists name rset hother l hl npr hnpr
      · exact hlists name rset hother l hl npr hnpr

theorem Outcome.wanted (h : Outcome t s e r) {npr : ρ}
    (hnpr : some npr ∈ itemsOf (recordsOf r.response)) : npr ∈ Wanted t e r := by
  cases h with
  | answered _ _ hshown => exact hshown npr hnpr
  | sent _ _ _ hadds _ hrecords =>
    rw [hrecords] at hnpr
    exact hadds.shown npr hnpr

theorem serve_inForm (hlists : ListsInForm t s) (hshown : InForm t s)
    (hreturns : Returns impl t s e) (hkeeps : Keeps t s e) (h : s.serve impl t e = some s') :
    ListsInForm t s' ∧ InForm t s' := by
  obtain ⟨r, hr, rfl⟩ := Option.map_eq_some_iff.mp h
  have houtcome : Outcome t s e r := by
    cases hasked : e.asked with
    | search req hitCount => exact search_outcome hasked hreturns hkeeps hr
    | present req => exact present_outcome hasked hlists hreturns hkeeps hr
  refine ⟨houtcome.listsInForm hlists _, ?_⟩
  intro shown hmem npr hnpr
  rcases List.mem_append.mp hmem with hold | hnew
  · exact hshown shown hold npr hnpr
  · obtain rfl := List.mem_singleton.mp hnew
    exact houtcome.wanted hnpr

end Step

/-! ## Runs -/

/-- There are no result sets yet. -/
def New (s : Session ρ) : Prop := s.frontend.sets = ∅ ∧ s.shown = []

/-- For every target, searches and presents: in a run where what is fetched ahead after a search is
in the form of the records that came with it, and each list that is used has the form of the
request, every record is shown in the form that was asked for. -/
theorem reach_inForm {impl : Impl ρ} {t : Target ρ} {s : Session ρ}
    (h : Reach (Session.serve impl t) New (fun s e => Returns impl t s e ∧ Keeps t s e) s) :
    InForm t s := by
  have hboth : ListsInForm t s ∧ InForm t s := by
    refine h.invariant (I := fun s => ListsInForm t s ∧ InForm t s) ?_ ?_
    · rintro s ⟨hsets, hshown⟩
      constructor
      · intro name rset hlookup
        rw [hsets] at hlookup
        cases hlookup
      · intro shown hmem
        rw [hshown] at hmem
        cases hmem
    · rintro s e s' ⟨hlists, hshown⟩ ⟨hreturns, hkeeps⟩ hs
      exact serve_inForm hlists hshown hreturns hkeeps hs
  exact hboth.2

/-! ## Two compositions -/

/-- A record that says what it was returned under. -/
def labelled : Target (Option RecordComposition × Nat) where
  returns _ comp := {npr | npr.1 = comp}
  piggybacked req _ := req.smallSetElementSetNames.map .simple

def named (name : String) : Option RecordComposition := some (.simple (.generic name.toList))

/-- All records at once, under the element set name F. -/
def searchF : SearchRequest :=
  ⟨"default", true, none, 3, 4, 0, some (.generic "F".toList), none, []⟩

def presentAs (name : String) : PresentRequest := ⟨"default", 1, 1, none, named name⟩

def oneFull : Answer (Option RecordComposition × Nat) :=
  ⟨false, some (.search ⟨1, 1, 2, true,
    some (.databaseOrSurDiagnostics ⟨1, [(named "F", 1)]⟩)⟩)⟩

def byNumber : Impl (Option RecordComposition × Nat) := ⟨20, true, fun r => [UInt8.ofNat r.2]⟩

def opened : Session (Option RecordComposition × Nat) := ⟨⟨true, ∅⟩, fun _ _ => none, []⟩

def searchTurn : Turn (Option RecordComposition × Nat) := ⟨.search searchF 0, false, [oneFull]⟩

def presentTurn (name : String) : Turn (Option RecordComposition × Nat) :=
  ⟨.present (presentAs name), false, []⟩

/-- The record has come with the search. -/
def searched : Session (Option RecordComposition × Nat) :=
  ⟨⟨true, (∅ : Table String (ResultSet (Option RecordComposition × Nat))).insert "default"
    ⟨1, [⟨none, [(named "F", 1)]⟩]⟩⟩,
    note (fun _ _ => none) "default" none (named "F"),
    [⟨none, named "F", [some (named "F", 1)]⟩]⟩

theorem serve_searchTurn : opened.serve byNumber labelled searchTurn = some searched := rfl

theorem serve_presentTurn (name : String) : searched.serve byNumber labelled (presentTurn name) =
    some { searched with
      shown := searched.shown ++ [⟨none, named name, [some (named "F", 1)]⟩] } := rfl

theorem returns_searchTurn : Returns byNumber labelled opened searchTurn := by
  constructor
  · intro b hb npr hnpr
    obtain rfl := Option.some.inj hb
    obtain rfl := List.mem_singleton.mp hnpr
    rfl
  · intro r _ k req b _ hb
    cases hb

theorem returns_presentTurn (name : String) :
    Returns byNumber labelled searched (presentTurn name) := by
  constructor
  · intro b hb
    cases hb
  · intro r _ k req b _ hb
    cases hb

theorem keeps_searchTurn : Keeps labelled opened searchTurn :=
  fun b _ => .inl fun b' hb' => by cases hb'

theorem reach_inForm_full : ∃ s,
    Reach (Session.serve byNumber labelled) New
      (fun s e => Returns byNumber labelled s e ∧ Keeps labelled s e) s ∧
    s.shown.getLast? = some ⟨none, named "F", [some (named "F", 1)]⟩ ∧ InForm labelled s := by
  have hkeeps : Keeps labelled searched (presentTurn "F") := fun _ _ _ _ _ _ _ h => h
  have hopened : Reach (Session.serve byNumber labelled) New
      (fun s e => Returns byNumber labelled s e ∧ Keeps labelled s e) opened := .start ⟨rfl, rfl⟩
  have hreach := (hopened.next ⟨returns_searchTurn, keeps_searchTurn⟩ serve_searchTurn).next
    ⟨returns_presentTurn "F", hkeeps⟩ (serve_presentTurn "F")
  exact ⟨_, hreach, rfl, reach_inForm hreach⟩

/-- The record that came with the search under F is shown to a request for B. -/
theorem reach_not_inForm : ∃ s,
    Reach (Session.serve byNumber labelled) New (Returns byNumber labelled) s ∧
    s.shown.getLast? = some ⟨none, named "B", [some (named "F", 1)]⟩ ∧ ¬ InForm labelled s := by
  refine ⟨_, ((Reach.start ⟨rfl, rfl⟩).next returns_searchTurn serve_searchTurn).next
    (returns_presentTurn "B") (serve_presentTurn "B"), rfl, ?_⟩
  intro h
  have hform : named "F" = named "B" :=
    h ⟨none, named "B", [some (named "F", 1)]⟩ (List.mem_append_right _ (List.mem_singleton_self _))
      (named "F", 1) (List.mem_singleton_self _)
  exact absurd hform (by decide)

end Forms
end FilterSort
end Metaproxy
