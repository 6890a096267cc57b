import Metaproxy.Lib.Run
import Metaproxy.Multi.Served

/-!
# Multi.Conversation

What the backends see of a client, from its first package to the end of its session, whatever they
answer (`client_conversations`). Each gets nothing, an init at which it closes its session, or an
init, requests and the package that closes its session. The backends that stay get the same searches
in the same order, and none is asked for records of a result set that it has not been asked to make.
-/

namespace Metaproxy
namespace Multi
namespace Client

open Lib Z3950

variable {ρ : Type*}

/-- A package of the client, and what the backends do with those sent for it; `pout` is for the
present request of a piggyback. -/
structure Label (ρ : Type*) where
  req : Request
  out : BackendPtr → Outcome ρ
  pout : BackendPtr → Outcome ρ
  /-- The client has closed its session, or a filter behind has closed that of a package moved on. -/
  closed : Bool

structure St (ρ : Type*) where
  frontend : Frontend ρ
  isClosed : Bool
  /-- The first first. -/
  log : List (BackendPtr × Request)

def init (s : St ρ) : Prop := s.frontend = .new ∧ s.isClosed = false ∧ s.log = []

/-- `release_frontend` leaves nothing of a session that is closed. -/
def step (rep : Rep) (s : St ρ) (a : Label ρ) : Option (St ρ) :=
  if s.isClosed then none
  else
    match process rep s.frontend a.req a.out a.pout with
    | none => some { s with isClosed := a.closed }
    | some r => some ⟨r.frontend, r.closed || a.closed, s.log ++ r.sent⟩

/-- With `Frontend::close`, when the session of the client is closed. -/
def finish (s : St ρ) : List (BackendPtr × Request) := s.log ++ s.frontend.close

/-- What a backend has been sent. -/
def talk (log : List (BackendPtr × Request)) (b : BackendPtr) : List Request :=
  (log.filter fun e => e.1 = b).map Prod.snd

/-- It asks an open session for something. -/
def asks : Request → Bool
  | .search _ => true
  | .present _ => true
  | .scan _ => true
  | .close => true
  | _ => false

/-- A conversation that is over. -/
inductive Talk : List Request → Prop where
  | silent : Talk []
  | refused (req : InitRequest) : Talk [.init req]
  | closed (req : InitRequest) (requests : List Request) :
      (∀ r ∈ requests, asks r = true) → Talk (.init req :: (requests ++ [.none]))

/-- A search, but for the databases, which are the backend's own. -/
def searched : Request → Option SearchRequest
  | .search req => some { req with databaseNames := [] }
  | _ => none

/-- The backend has been asked to make the result set. -/
def Searched (log : List (BackendPtr × Request)) (b : BackendPtr) (setname : String) : Prop :=
  ∃ req, (b, .search req) ∈ log ∧ req.resultSetName = setname

/-- A present request comes after the search for its result set. -/
def AfterSearch (log : List (BackendPtr × Request)) : Prop :=
  ∀ before b req after, log = before ++ (b, .present req) :: after →
    Searched before b req.resultSetId

def SetsSearched (log : List (BackendPtr × Request)) (f : Frontend ρ) : Prop :=
  ∀ name fset, f.sets.lookup name = some fset → ∀ b ∈ fset.backendSets.map BackendSet.backend,
    b ∈ f.backendList ∧ Searched log b name

/-- A conversation with a backend of the list. -/
def Opened (sent : List Request) : Prop :=
  ∃ req requests, sent = .init req :: requests ∧ ∀ r ∈ requests, asks r = true

structure Conversed (s : St ρ) : Prop where
  /-- Before the init that makes the backends. -/
  idle : s.frontend.isMulti = false → s.log = [] ∧ s.frontend.backendList = [] ∧
    s.frontend.sets = ∅
  opened : ∀ b ∈ s.frontend.backendList, Opened (talk s.log b)
  ended : ∀ b ∉ s.frontend.backendList, Talk (talk s.log b)
  agreed : ∀ b ∈ s.frontend.backendList, ∀ b' ∈ s.frontend.backendList,
    (talk s.log b).filterMap searched = (talk s.log b').filterMap searched
  sets : SetsSearched s.log s.frontend
  presents : AfterSearch s.log

variable {rep : Rep} {s s' : St ρ} {f : Frontend ρ} {log sent : List (BackendPtr × Request)}
  {b : BackendPtr} {name : String} {out pout : BackendPtr → Outcome ρ}

/-! ## What has been sent -/

theorem talk_append (log sent : List (BackendPtr × Request)) (b : BackendPtr) :
    talk (log ++ sent) b = talk log b ++ talk sent b := by
  rw [talk, List.filter_append, List.map_append]
  rfl

theorem mem_talk {r : Request} : r ∈ talk log b ↔ (b, r) ∈ log := by
  rw [talk, List.mem_map]
  constructor
  · rintro ⟨e, he, rfl⟩
    obtain ⟨hmem, hb⟩ := List.mem_filter.mp he
    rwa [← of_decide_eq_true hb]
  · intro he
    exact ⟨(b, r), List.mem_filter.mpr ⟨he, decide_eq_true rfl⟩, rfl⟩

/-- A request to each of some backends. -/
theorem talk_map {blist : List BackendPtr} (h : blist.Nodup) (request : BackendPtr → Request)
    (b : BackendPtr) :
    talk (blist.map fun b => (b, request b)) b = if b ∈ blist then [request b] else [] := by
  induction blist with
  | nil => rfl
  | cons b' blist ih =>
    obtain ⟨hnot, hnodup⟩ := List.nodup_cons.mp h
    have htail := ih hnodup
    rw [talk] at htail
    rw [talk, List.map_cons, List.filter_cons]
    by_cases hb : b' = b
    · subst hb
      rw [if_pos (decide_eq_true rfl), List.map_cons, htail, if_neg hnot,
        if_pos List.mem_cons_self]
    · rw [if_neg (by simpa using hb), htail]
      simp [Ne.symm hb]

theorem Searched.mono (h : Searched log b name) (hle : ∀ e ∈ log, e ∈ sent) :
    Searched sent b name := by
  obtain ⟨req, he, hname⟩ := h
  exact ⟨req, hle _ he, hname⟩

theorem Searched.append (h : Searched log b name) (sent : List (BackendPtr × Request)) :
    Searched (log ++ sent) b name :=
  h.mono fun _ => List.mem_append_left sent

/-- What is sent after a log. -/
theorem AfterSearch.append (h : AfterSearch log)
    (hsent : ∀ before b req after, sent = before ++ (b, .present req) :: after →
      Searched (log ++ before) b req.resultSetId) : AfterSearch (log ++ sent) := by
  intro before b req after hsplit
  rcases List.append_eq_append_iff.mp hsplit with ⟨l, hbefore, hrest⟩ | ⟨l, hlog, hrest⟩
  · rw [hbefore]
    exact hsent l b req after hrest
  · cases l with
    | nil =>
      rw [List.append_nil] at hlog
      have hnew := hsent [] b req after hrest.symm
      rwa [List.append_nil, hlog] at hnew
    | cons e l =>
      obtain ⟨rfl, -⟩ := List.cons.inj hrest
      exact h before b req l hlog

/-! ## Requests -/

/-- What a request of the client does to the conversations. -/
structure Sends (log : List (BackendPtr × Request)) (f : Frontend ρ) (r : Result ρ) : Prop where
  isMulti : r.frontend.isMulti = f.isMulti
  backendList : r.frontend.backendList = f.backendList
  sent : ∀ e ∈ r.sent, e.1 ∈ f.backendList ∧ asks e.2 = true
  agreed : ∃ searches, ∀ b ∈ f.backendList, (talk r.sent b).filterMap searched = searches
  sets : SetsSearched (log ++ r.sent) r.frontend
  presents : ∀ before b req after, r.sent = before ++ (b, .present req) :: after →
    Searched (log ++ before) b req.resultSetId

theorem SetsSearched.append (h : SetsSearched log f) (sent : List (BackendPtr × Request)) :
    SetsSearched (log ++ sent) f := fun name fset hset b hb =>
  ⟨(h name fset hset b hb).1, (h name fset hset b hb).2.append sent⟩

theorem present_sends (h : SetsSearched log f) (req : PresentRequest)
    (out : BackendPtr → Outcome ρ) : Sends log f (present rep f req out) := by
  cases hset : f.sets.lookup req.resultSetId with
  | none =>
    unfold present
    rw [hset]
    refine ⟨rfl, rfl, List.forall_mem_nil _, ⟨[], fun _ _ => rfl⟩, h.append _, ?_⟩
    intro before b req after hsplit
    cases before <;> cases hsplit
  | some fset =>
    rw [present_eq hset]
    have hask {a : Ask} (ha : a ∈ asksOf rep fset req) :
        a.backend ∈ f.backendList ∧ Searched log a.backend req.resultSetId := by
      obtain ⟨bs, hbs, hsome⟩ := List.mem_filterMap.mp ha
      have hbackend : a.backend = bs.backend := by
        rw [askOf] at hsome
        split at hsome
        · cases hsome
          rfl
        · cases hsome
      rw [hbackend]
      exact h _ fset hset bs.backend (List.mem_map_of_mem hbs)
    refine ⟨rfl, rfl, fun e he => ?_, ⟨[], fun b hb => ?_⟩, h.append _, ?_⟩
    · obtain ⟨a, ha, rfl⟩ := List.mem_map.mp he
      exact ⟨(hask ha).1, rfl⟩
    · refine List.filterMap_eq_nil_iff.mpr fun r hr => ?_
      obtain ⟨a, -, ha⟩ := List.mem_map.mp (mem_talk.mp hr)
      cases ha
      rfl
    · intro before b req' after hsplit
      have hmem : (b, Request.present req') ∈
          (asksOf rep fset req).map fun a => (a.backend, Request.present (a.request req)) := by
        dsimp only at hsplit
        rw [hsplit]
        exact List.mem_append_right _ List.mem_cons_self
      obtain ⟨a, ha, heq⟩ := List.mem_map.mp hmem
      cases heq
      exact (hask ha).2.append before

/-- The same request to all backends of the list. -/
theorem sends_all {r : Result ρ} (h : SetsSearched log f) (request : BackendPtr → Request)
    (hmulti : r.frontend.isMulti = f.isMulti) (hlist : r.frontend.backendList = f.backendList)
    (hsets : r.frontend.sets = f.sets)
    (hsent : r.sent = f.backendList.map fun b => (b, request b))
    (hasks : ∀ b, asks (request b) = true) (hnone : ∀ b, searched (request b) = none)
    (hpresent : ∀ b req, request b ≠ .present req) : Sends log f r := by
  refine ⟨hmulti, hlist, fun e he => ?_, ⟨[], fun b hb => ?_⟩, fun name fset hset b hb => ?_, ?_⟩
  · rw [hsent] at he
    obtain ⟨b, hb, rfl⟩ := List.mem_map.mp he
    exact ⟨hb, hasks b⟩
  · rw [hsent, talk_map f.distinct, if_pos hb]
    exact List.filterMap_cons_none (hnone b)
  · rw [hsets] at hset
    rw [hlist]
    exact h.append _ name fset hset b hb
  · intro before b req after hsplit
    have hmem : (b, Request.present req) ∈ f.backendList.map fun b => (b, request b) := by
      rw [← hsent, hsplit]
      exact List.mem_append_right _ List.mem_cons_self
    obtain ⟨b', -, heq⟩ := List.mem_map.mp hmem
    exact absurd (Prod.mk.inj heq).2 (hpresent b' req)

/-! ### A search -/

theorem talk_searchSent (rep : Rep) (req : SearchRequest) (hb : b ∈ f.backendList) :
    talk (searchSent rep f req) b =
      [.search (req.forBackend rep.hostArgs (f.backends b).vhost)] := by
  rw [searchSent, talk_map f.distinct, if_pos hb]

theorem searchSent_cases {e : BackendPtr × Request} {req : SearchRequest}
    (h : e ∈ searchSent rep f req) :
    e.1 ∈ f.backendList ∧ asks e.2 = true ∧ ∀ req', e.2 ≠ .present req' := by
  obtain ⟨b, hb, rfl⟩ := List.mem_map.mp h
  refine ⟨hb, rfl, fun req' h => ?_⟩
  cases h

/-- All of them are asked to make the result set, which the new one replaces. -/
theorem setsSearched_search (h : SetsSearched log f) (req : SearchRequest)
    (out : BackendPtr → Outcome ρ) :
    SetsSearched (log ++ searchSent rep f req) (afterSearch f req out) := by
  intro name fset hset b hb
  rcases Table.lookup_insert_iff.mp hset with ⟨rfl, rfl⟩ | ⟨-, hold⟩
  · have hmem : b ∈ (f.multiMove f.backendList out).backendList := mem_resultSet hb
    refine ⟨hmem, req.forBackend rep.hostArgs (f.backends b).vhost, ?_, rfl⟩
    exact List.mem_append_right _ (List.mem_map.mpr ⟨b, hmem, rfl⟩)
  · exact h.append _ name fset hold b hb

/-- The searches, and what else is sent for the client's. -/
theorem search_sends_of {r : Result ρ} {req : SearchRequest} {more : List (BackendPtr × Request)}
    (hmulti : r.frontend.isMulti = f.isMulti) (hlist : r.frontend.backendList = f.backendList)
    (hsent : r.sent = searchSent rep f req ++ more)
    (hmore : ∀ e ∈ more, e.1 ∈ f.backendList ∧ asks e.2 = true)
    (hagreed : ∃ searches, ∀ b ∈ f.backendList, (talk more b).filterMap searched = searches)
    (hsets : SetsSearched (log ++ r.sent) r.frontend)
    (hpresents : ∀ before b req' after, more = before ++ (b, .present req') :: after →
      Searched (log ++ searchSent rep f req ++ before) b req'.resultSetId) : Sends log f r := by
  obtain ⟨searches, hsearches⟩ := hagreed
  -- the bounds are the same for all backends
  let common : SearchRequest :=
    { req with
      smallSetUpperBound := 0
      largeSetLowerBound := 1
      mediumSetPresentNumber := 0
      databaseNames := [] }
  refine ⟨hmulti, hlist, fun e he => ?_, ⟨common :: searches, fun b hb => ?_⟩, hsets, ?_⟩
  · rw [hsent] at he
    rcases List.mem_append.mp he with he | he
    · exact ⟨(searchSent_cases he).1, (searchSent_cases he).2.1⟩
    · exact hmore e he
  · rw [hsent, talk_append, talk_searchSent rep req hb, List.filterMap_append, hsearches b hb]
    rfl
  · intro before b req' after hsplit
    rw [hsent] at hsplit
    rcases List.append_eq_append_iff.mp hsplit with ⟨l, rfl, hrest⟩ | ⟨l, hsearch, hrest⟩
    · rw [← List.append_assoc]
      exact hpresents l b req' after hrest
    · cases l with
      | nil =>
        rw [List.append_nil] at hsearch
        have hnew := hpresents [] b req' after hrest.symm
        rwa [List.append_nil, hsearch] at hnew
      | cons e l =>
        obtain ⟨rfl, -⟩ := List.cons.inj hrest
        have hmem : (b, Request.present req') ∈ searchSent rep f req := by
          rw [hsearch]
          exact List.mem_append_right _ List.mem_cons_self
        exact absurd rfl ((searchSent_cases hmem).2.2 req')

theorem search_sends (h : SetsSearched log f) (req : SearchRequest)
    (out pout : BackendPtr → Outcome ρ) : Sends log f (search rep f req out pout) := by
  have hagreed : ∃ searches, ∀ b ∈ f.backendList,
      (talk ([] : List (BackendPtr × Request)) b).filterMap searched = searches :=
    ⟨[], fun _ _ => rfl⟩
  have hnone (before : List (BackendPtr × Request)) (b : BackendPtr) (req' : PresentRequest)
      (after : List (BackendPtr × Request)) (hnil : [] = before ++ (b, .present req') :: after) :
      Searched (log ++ searchSent rep f req ++ before) b req'.resultSetId := by
    cases before <;> cases hnil
  cases hclose : (look Gdu.searchRecords (f.multiMove f.backendList out) f.backendList).close
      rep.hideUnavailable with
  | some b =>
    have hlist : (f.multiMove f.backendList out).backendList = f.backendList := rfl
    unfold search
    simp only [hlist, hclose]
    exact search_sends_of rfl rfl (List.append_nil _).symm (List.forall_mem_nil _) hagreed
      (h.append _) hnone
  | none =>
    rw [search_eq hclose]
    split_ifs
    · have hpresent : Sends (log ++ searchSent rep f req) (afterSearch f req out)
          (present rep (afterSearch f req out) (piggybackRequest f req out) pout) :=
        present_sends (setsSearched_search h req out) _ pout
      refine search_sends_of hpresent.isMulti hpresent.backendList rfl hpresent.sent
        hpresent.agreed ?_ hpresent.presents
      rw [← List.append_assoc]
      exact hpresent.sets
    · exact search_sends_of rfl rfl (List.append_nil _).symm (List.forall_mem_nil _) hagreed
        (setsSearched_search h req out) hnone

theorem scan_sends (h : SetsSearched log f) (req : ScanRequest) (out : BackendPtr → Outcome ρ) :
    Sends log f (f.scan rep req out) := by
  let request (b : BackendPtr) : Request :=
    .scan (req.forBackend rep.hostArgs (f.backends b).vhost)
  have hpresent (b : BackendPtr) (req' : PresentRequest) : request b ≠ .present req' := by
    intro h
    cases h
  unfold Frontend.scan
  simp only
  split
  all_goals exact sends_all h request rfl rfl rfl rfl (fun _ => rfl) (fun _ => rfl) hpresent

theorem relay_sends (h : SetsSearched log f) (out : BackendPtr → Outcome ρ) :
    Sends log f (relay f .close out) := by
  have hpresent (b : BackendPtr) (req : PresentRequest) : Request.close ≠ .present req := by
    intro h
    cases h
  exact sends_all h (fun _ => .close) rfl rfl rfl rfl (fun _ => rfl) (fun _ => rfl) hpresent

/-- Nothing is sent. -/
theorem nothing_sends (h : SetsSearched log f) {r : Result ρ} (hfrontend : r.frontend = f)
    (hsent : r.sent = []) : Sends log f r := by
  refine ⟨by rw [hfrontend], by rw [hfrontend], ?_, ⟨[], fun b _ => ?_⟩, ?_, ?_⟩
  · rw [hsent]
    exact List.forall_mem_nil _
  · rw [hsent]
    rfl
  · rw [hsent, hfrontend]
    exact h.append _
  · intro before b req after hsplit
    rw [hsent] at hsplit
    cases before <;> cases hsplit

/-- Every request but the init that makes the backends. -/
theorem process_sends (hmulti : f.isMulti = true) (h : SetsSearched log f) (req : Request)
    {r : Result ρ} (hr : process rep f req out pout = some r) : Sends log f r := by
  unfold process at hr
  rw [hmulti] at hr
  cases req with
  | init req =>
    cases hr
    exact nothing_sends h rfl rfl
  | search req =>
    cases hr
    exact search_sends h req out pout
  | present req =>
    cases hr
    exact present_sends h req out
  | scan req =>
    cases hr
    exact scan_sends h req out
  | close =>
    cases hr
    exact relay_sends h out
  | other encoding =>
    cases hr
    exact nothing_sends h rfl rfl
  | none =>
    cases hr
    exact nothing_sends h rfl rfl

/-! ## Every run -/

theorem conversed_of_init (h : init s) : Conversed s := by
  obtain ⟨hfrontend, -, hlog⟩ := h
  have hlist : s.frontend.backendList = [] := by rw [hfrontend]; rfl
  have hsets : s.frontend.sets = ∅ := by rw [hfrontend]; rfl
  refine ⟨fun _ => ⟨hlog, hlist, hsets⟩, fun b hb => ?_, fun b _ => ?_, fun b hb => ?_,
    fun name fset hset => ?_, fun before b req after hsplit => ?_⟩
  · rw [hlist] at hb
    cases hb
  · rw [hlog]
    exact .silent
  · rw [hlist] at hb
    cases hb
  · rw [hsets, AList.lookup_empty] at hset
    cases hset
  · rw [hlog] at hsplit
    cases before <;> cases hsplit

theorem Conversed.send (h : Conversed s) (hmulti : s.frontend.isMulti = true) {r : Result ρ}
    (hr : Sends s.log s.frontend r) (isClosed : Bool) :
    Conversed ⟨r.frontend, isClosed, s.log ++ r.sent⟩ := by
  refine ⟨fun hidle => ?_, fun b hb => ?_, fun b hb => ?_, fun b hb b' hb' => ?_, hr.sets,
    h.presents.append hr.presents⟩
  · have hidle' : r.frontend.isMulti = false := hidle
    rw [hr.isMulti, hmulti] at hidle'
    cases hidle'
  · dsimp only at hb ⊢
    rw [hr.backendList] at hb
    obtain ⟨req, requests, htalk, hasks⟩ := h.opened b hb
    refine ⟨req, requests ++ talk r.sent b, ?_, fun q hq => ?_⟩
    · rw [talk_append, htalk]
      rfl
    · rcases List.mem_append.mp hq with hq | hq
      · exact hasks q hq
      · exact (hr.sent _ (mem_talk.mp hq)).2
  · dsimp only at hb ⊢
    rw [hr.backendList] at hb
    have hnone : talk r.sent b = [] := by
      refine List.eq_nil_iff_forall_not_mem.mpr fun q hq => hb ?_
      exact (hr.sent _ (mem_talk.mp hq)).1
    rw [talk_append, hnone, List.append_nil]
    exact h.ended b hb
  · dsimp only at hb hb' ⊢
    rw [hr.backendList] at hb hb'
    obtain ⟨searches, hsearches⟩ := hr.agreed
    rw [talk_append, talk_append, List.filterMap_append, List.filterMap_append, h.agreed b hb b' hb',
      hsearches b hb, hsearches b' hb']

/-- The init that makes the backends. -/
theorem Conversed.init (h : Conversed s) (hmulti : s.frontend.isMulti = false) {req : InitRequest}
    {r : Result ρ} (hr : Multi.init rep s.frontend req out = some r) (isClosed : Bool) :
    Conversed ⟨r.frontend, isClosed, s.log ++ r.sent⟩ := by
  obtain ⟨hlog, -, hsets⟩ := h.idle hmulti
  unfold Multi.init at hr
  split at hr
  · cases hr
  · cases hr
    let request (b : BackendPtr) : Request :=
      .init (req.forBackend (Backend.new rep (req.vhosts.getD b "") : Backend ρ))
    have htalk (b : BackendPtr) :
        talk ((List.range req.vhosts.length).map fun b => (b, request b)) b =
          if b ∈ List.range req.vhosts.length then [request b] else [] :=
      talk_map List.nodup_range request b
    refine ⟨fun hidle => ?_, fun b hb => ?_, fun b hb => ?_, fun b hb b' hb' => ?_,
      fun name fset hset => ?_, fun before b req' after hsplit => ?_⟩
    · cases hidle
    · dsimp only
      rw [hlog, List.nil_append, htalk, if_pos (List.mem_filter.mp hb).1]
      exact ⟨_, [], rfl, List.forall_mem_nil _⟩
    · dsimp only
      rw [hlog, List.nil_append, htalk]
      split
      · exact .refused _
      · exact .silent
    · dsimp only
      rw [hlog, List.nil_append, htalk, htalk, if_pos (List.mem_filter.mp hb).1,
        if_pos (List.mem_filter.mp hb').1]
      rfl
    · have hnone : s.frontend.sets.lookup name = some fset := hset
      rw [hsets, AList.lookup_empty] at hnone
      cases hnone
    · dsimp only at hsplit
      rw [hlog, List.nil_append] at hsplit
      have hmem : (b, Request.present req') ∈ before ++ (b, .present req') :: after :=
        List.mem_append_right _ List.mem_cons_self
      rw [← hsplit] at hmem
      obtain ⟨b', -, heq⟩ := List.mem_map.mp hmem
      cases heq

theorem conversed_step (h : Conversed s) {a : Label ρ} (hs : step rep s a = some s') :
    Conversed s' := by
  rw [step] at hs
  split at hs
  · cases hs
  · split at hs
    · cases hs
      exact ⟨h.idle, h.opened, h.ended, h.agreed, h.sets, h.presents⟩
    · rename_i r hr
      cases hs
      cases hmulti : s.frontend.isMulti with
      | true => exact h.send hmulti (process_sends hmulti h.sets a.req hr) _
      | false =>
        unfold process at hr
        rw [hmulti] at hr
        cases hreq : a.req with
        | init req =>
          rw [hreq] at hr
          exact h.init hmulti hr _
        | search req =>
          rw [hreq] at hr
          cases hr
        | present req =>
          rw [hreq] at hr
          cases hr
        | scan req =>
          rw [hreq] at hr
          cases hr
        | close =>
          rw [hreq] at hr
          cases hr
        | other encoding =>
          rw [hreq] at hr
          cases hr
        | none =>
          rw [hreq] at hr
          cases hr

theorem conversed_of_reach (h : Reach (step rep) init Any s) : Conversed s :=
  h.invariant (fun _ => conversed_of_init) fun _ _ _ hi _ hs => conversed_step hi hs

theorem talk_finish (s : St ρ) (b : BackendPtr) :
    talk (finish s) b = talk s.log b ++ if b ∈ s.frontend.backendList then [.none] else [] := by
  rw [finish, talk_append, Frontend.close]
  exact congrArg _ (talk_map s.frontend.distinct (fun _ => .none) b)

/-- When the session of the client is over. -/
theorem Conversed.finished (h : Conversed s) :
    (∀ b, Talk (talk (finish s) b)) ∧
    (∀ b ∈ s.frontend.backendList, ∃ req requests, (∀ r ∈ requests, asks r = true) ∧
      talk (finish s) b = .init req :: (requests ++ [.none])) ∧
    (∀ b ∈ s.frontend.backendList, ∀ b' ∈ s.frontend.backendList,
      (talk (finish s) b).filterMap searched = (talk (finish s) b').filterMap searched) ∧
    AfterSearch (finish s) := by
  have hopened : ∀ b ∈ s.frontend.backendList, ∃ req requests, (∀ r ∈ requests, asks r = true) ∧
      talk (finish s) b = .init req :: (requests ++ [.none]) := by
    intro b hb
    obtain ⟨req, requests, htalk, hasks⟩ := h.opened b hb
    refine ⟨req, requests, hasks, ?_⟩
    rw [talk_finish, htalk, if_pos hb]
    rfl
  refine ⟨fun b => ?_, hopened, fun b hb b' hb' => ?_, h.presents.append ?_⟩
  · by_cases hb : b ∈ s.frontend.backendList
    · obtain ⟨req, requests, hasks, htalk⟩ := hopened b hb
      rw [htalk]
      exact .closed req requests hasks
    · rw [talk_finish, if_neg hb, List.append_nil]
      exact h.ended b hb
  · rw [talk_finish, talk_finish, if_pos hb, if_pos hb', List.filterMap_append,
      List.filterMap_append, h.agreed b hb b' hb']
  · intro before b req after hsplit
    have hmem : (b, Request.present req) ∈ s.frontend.close := by
      rw [hsplit]
      exact List.mem_append_right _ List.mem_cons_self
    obtain ⟨b', -, heq⟩ := List.mem_map.mp hmem
    cases heq

/-- Every session of a client, whatever its backends do, when it is over. -/
theorem client_conversations (h : Reach (step rep) init Any s) :
    (∀ b, Talk (talk (finish s) b)) ∧
    (∀ b ∈ s.frontend.backendList, ∃ req requests, (∀ r ∈ requests, asks r = true) ∧
      talk (finish s) b = .init req :: (requests ++ [.none])) ∧
    (∀ b ∈ s.frontend.backendList, ∀ b' ∈ s.frontend.backendList,
      (talk (finish s) b).filterMap searched = (talk (finish s) b').filterMap searched) ∧
    AfterSearch (finish s) :=
  (conversed_of_reach h).finished

/-! ### Two backends, one of which closes at once -/

def noRoutes : Rep := ⟨[], true, true, .serveOrder, fun _ _ => false, fun _ => none⟩

def accepted : Outcome Unit :=
  ⟨false, some (.init ⟨ownOptions, ownVersions, 1024, 1024, true, none⟩)⟩

def threeHits : Outcome Unit := ⟨false, some (.search ⟨3, 0, 1, none⟩)⟩

def gone : Outcome Unit := ⟨true, none⟩

/-- An init, a search and a present of the second hit. -/
def threeRequests : List (Label Unit) :=
  [⟨.init ⟨["a", "b"], none, 1024, 1024, [], [], none⟩,
      fun b => if b = 0 then accepted else gone, fun _ => gone, false⟩,
    ⟨.search ⟨"default", ["db"], 0, 1, 0, none, []⟩, fun _ => threeHits, fun _ => gone, false⟩,
    ⟨.present ⟨"default", 2, 1, none, none⟩, fun _ => gone, fun _ => gone, false⟩]

def atFirst : St Unit := ⟨.new, false, []⟩

def atLast : St Unit := (run (step noRoutes) atFirst threeRequests).getD atFirst

theorem client_conversations_one :
    Talk (talk (finish atLast) 0) ∧ Talk (talk (finish atLast) 1) ∧
      Searched ((finish atLast).take 3) 0 "default" := by
  have hrun : run (step noRoutes) atFirst threeRequests = some atLast := rfl
  have hreach : Reach (step noRoutes) init Any atLast :=
    (Reach.start ⟨rfl, rfl, rfl⟩).of_run (runOk_any _ _) hrun
  obtain ⟨htalk, -, -, hpresents⟩ := client_conversations hreach
  have hsplit : finish atLast = (finish atLast).take 3 ++
      (0, .present ⟨"default", 2, 1, none, none⟩) :: [(0, .none)] := rfl
  exact ⟨htalk 0, htalk 1, hpresents _ 0 _ _ hsplit⟩

end Client
end Multi
end Metaproxy
