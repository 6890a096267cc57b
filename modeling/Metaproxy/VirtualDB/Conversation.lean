import Metaproxy.VirtualDB.Sets

/-!
# VirtualDB.Conversation

What a backend sees of a frontend session, from its first package to the end of the session: nothing,
an init that has not been accepted, or an init, requests on the same route and one close
(`conversations`).
-/

namespace Metaproxy
namespace VirtualDB

open Lib

def Sent.session : Sent → Nat
  | .init session _ _ => session
  | .search _ session _ _ _ _ => session
  | .present _ session _ _ => session
  | .scan session _ _ => session
  | .relay session _ => session
  | .close session _ => session

def Sent.route : Sent → String
  | .init _ route _ => route
  | .search _ _ route _ _ _ => route
  | .present _ _ route _ => route
  | .scan _ route _ => route
  | .relay _ route => route
  | .close _ route => route

/-- It asks an open session for something. -/
def Sent.isRequest : Sent → Bool
  | .init .. => false
  | .close .. => false
  | _ => true

/-- `Frontend::close`, when the session of the client is closed. -/
def finish (s : St) : St :=
  { s with
    backendList := []
    log := (s.backendList.map fun b => .close b.session b.route).reverse ++ s.log }

/-- What has been sent on a backend session, the first first. -/
def talk (log : List Sent) (session : Nat) : List Sent :=
  (log.filter fun e => e.session = session).reverse

/-- Requests on the route of an init. -/
def OnRoute (route : String) (requests : List Sent) : Prop :=
  ∀ e ∈ requests, e.isRequest = true ∧ e.route = route

/-- A conversation that is over. -/
inductive Talk (session : Nat) : List Sent → Prop where
  | silent : Talk session []
  | refused (route : String) (vhosts : List String) : Talk session [.init session route vhosts]
  | closed (route : String) (vhosts : List String) (requests : List Sent) :
      OnRoute route requests →
      Talk session (.init session route vhosts :: (requests ++ [.close session route]))

/-- A conversation with a backend of the list. -/
def Opened (b : Backend) (sent : List Sent) : Prop :=
  ∃ requests, sent = .init b.session b.route b.targets :: requests ∧ OnRoute b.route requests

/-- Backends of the list are in a conversation each; all others are over, or still to come. -/
structure Talks (s : St) : Prop where
  ids : ∀ b ∈ s.backendList, b.session ≤ s.globalId
  distinct : (s.backendList.map (·.session)).Nodup
  fresh : ∀ session, s.globalId < session → talk s.log session = []
  opened : ∀ b ∈ s.backendList, Opened b (talk s.log b.session)
  ended : ∀ session, (∀ b ∈ s.backendList, b.session ≠ session) →
    Talk session (talk s.log session)

variable {rep : Rep} {s s' : St} {log : List Sent} {e : Sent} {b : Backend}

theorem talk_cons_self (log : List Sent) (e : Sent) :
    talk (e :: log) e.session = talk log e.session ++ [e] := by
  have hself : decide (e.session = e.session) = true := decide_eq_true rfl
  rw [talk, List.filter_cons, hself, if_pos rfl, List.reverse_cons, talk]

theorem talk_cons_ne {session : Nat} (h : e.session ≠ session) :
    talk (e :: log) session = talk log session := by
  rw [talk, List.filter_cons_of_neg (by simpa using h), talk]

theorem Opened.request {sent : List Sent} (h : Opened b sent) (he : e.isRequest = true)
    (hroute : e.route = b.route) : Opened b (sent ++ [e]) := by
  obtain ⟨requests, rfl, hall⟩ := h
  refine ⟨requests ++ [e], rfl, fun e' he' => ?_⟩
  rcases List.mem_append.mp he' with he' | he'
  · exact hall e' he'
  · rw [List.mem_singleton.mp he']
    exact ⟨he, hroute⟩

theorem Opened.close {sent : List Sent} (h : Opened b sent) :
    Talk b.session (sent ++ [.close b.session b.route]) := by
  obtain ⟨requests, rfl, hall⟩ := h
  exact .closed b.route b.targets requests hall

/-- Only these fields matter. -/
theorem Talks.congr (h : Talks s) (hlist : s'.backendList = s.backendList) (hlog : s'.log = s.log)
    (hid : s.globalId ≤ s'.globalId) : Talks s' where
  ids b hb := Nat.le_trans (h.ids b (hlist ▸ hb)) hid
  distinct := by
    rw [hlist]
    exact h.distinct
  fresh session hsession := by
    rw [hlog]
    exact h.fresh session (Nat.lt_of_le_of_lt hid hsession)
  opened b hb := by
    rw [hlog]
    exact h.opened b (hlist ▸ hb)
  ended session hnone := by
    rw [hlog]
    exact h.ended session (hlist ▸ hnone)

theorem eq_of_session (h : Talks s) {b b' : Backend} (hb : b ∈ s.backendList)
    (hb' : b' ∈ s.backendList) (hs : b.session = b'.session) : b = b' :=
  List.inj_on_of_nodup_map h.distinct hb hb' hs

/-- A request goes to a backend of the list. -/
theorem Talks.request (h : Talks s) (hb : b ∈ s.backendList) (he : e.isRequest = true)
    (hsession : e.session = b.session) (hroute : e.route = b.route) :
    Talks { s with log := e :: s.log } where
  ids := h.ids
  distinct := h.distinct
  fresh session hlt := by
    have hne : e.session ≠ session :=
      hsession ▸ Nat.ne_of_lt (Nat.lt_of_le_of_lt (h.ids b hb) hlt)
    exact (talk_cons_ne hne).trans (h.fresh session hlt)
  opened b' hb' := by
    by_cases hsame : e.session = b'.session
    · cases eq_of_session h hb hb' (hsession.symm.trans hsame)
      rw [← hsession]
      have hopened := h.opened b hb
      rw [← hsession] at hopened
      show Opened b (talk (e :: s.log) e.session)
      rw [talk_cons_self]
      exact hopened.request he hroute
    · show Opened b' (talk (e :: s.log) b'.session)
      rw [talk_cons_ne hsame]
      exact h.opened b' hb'
  ended session hnone := by
    have hne : e.session ≠ session := hsession ▸ hnone b hb
    show Talk session (talk (e :: s.log) session)
    rw [talk_cons_ne hne]
    exact h.ended session hnone

/-- Entries of `m_sets` have backends of the list. -/
def SetsKnown (s : St) : Prop :=
  ∀ name set, s.sets.lookup name = some set → set.backend ∈ s.backendList

/-- A backend that accepts is appended with its conversation. -/
theorem Talks.accept (h : Talks s) (hb : b.session = s.globalId + 1) :
    Talks { s with globalId := s.globalId + 1, backendList := s.backendList ++ [b],
                   log := .init b.session b.route b.targets :: s.log } := by
  have hold : ∀ b' ∈ s.backendList, b.session ≠ b'.session := by
    intro b' hb' hsame
    have hle := h.ids b' hb'
    omega
  have hnew : ∀ session, b.session ≠ session →
      talk (.init b.session b.route b.targets :: s.log) session = talk s.log session :=
    fun session hne => talk_cons_ne (e := .init b.session b.route b.targets) hne
  refine ⟨fun b' hb' => ?_, ?_, fun session hlt => ?_, fun b' hb' => ?_, fun session hnone => ?_⟩
  · show b'.session ≤ s.globalId + 1
    rcases List.mem_append.mp hb' with hb' | hb'
    · exact Nat.le_succ_of_le (h.ids b' hb')
    · rw [List.mem_singleton.mp hb', hb]
  · rw [List.map_append, List.nodup_append]
    refine ⟨h.distinct, List.nodup_singleton _, fun x hx y hy hxy => ?_⟩
    obtain ⟨b', hb', rfl⟩ := List.mem_map.mp hx
    rw [List.map_singleton, List.mem_singleton] at hy
    exact hold b' hb' (hy.symm.trans hxy.symm)
  · have hlt' : s.globalId + 1 < session := hlt
    exact (hnew session (by omega)).trans (h.fresh session (by omega))
  · show Opened b' (talk (_ :: s.log) b'.session)
    rcases List.mem_append.mp hb' with hb' | hb'
    · rw [hnew b'.session (hold b' hb')]
      exact h.opened b' hb'
    · rw [List.mem_singleton.mp hb']
      have hcons := talk_cons_self s.log (.init b.session b.route b.targets)
      rw [Sent.session, h.fresh b.session (by omega)] at hcons
      rw [hcons]
      exact ⟨[], rfl, List.forall_mem_nil _⟩
  · have hne : b.session ≠ session := hnone b (List.mem_append_right _ (List.mem_singleton_self b))
    show Talk session (talk (_ :: s.log) session)
    rw [hnew session hne]
    exact h.ended session fun b' hb' => hnone b' (List.mem_append_left _ hb')

/-- The conversation of a backend that does not accept is over. -/
theorem Talks.refuse (h : Talks s) (hb : b.session = s.globalId + 1) {new : List Sent}
    (hnew : new = [.init b.session b.route b.targets] ∨
      new = [.close b.session b.route, .init b.session b.route b.targets]) :
    Talks { s with globalId := s.globalId + 1, log := new ++ s.log } := by
  have hold : ∀ b' ∈ s.backendList, b.session ≠ b'.session := by
    intro b' hb' hsame
    have hle := h.ids b' hb'
    omega
  have hother : ∀ session, b.session ≠ session → talk (new ++ s.log) session = talk s.log session := by
    intro session hne
    rcases hnew with rfl | rfl
    · exact talk_cons_ne (e := .init b.session b.route b.targets) hne
    · exact (talk_cons_ne (e := .close b.session b.route) hne).trans
        (talk_cons_ne (e := .init b.session b.route b.targets) hne)
  have hself : Talk b.session (talk (new ++ s.log) b.session) := by
    have hfresh := h.fresh b.session (by omega)
    have hinit := talk_cons_self s.log (.init b.session b.route b.targets)
    rw [Sent.session, hfresh] at hinit
    rcases hnew with rfl | rfl
    · show Talk b.session (talk (_ :: s.log) b.session)
      rw [hinit]
      exact .refused b.route b.targets
    · have hclose := talk_cons_self (.init b.session b.route b.targets :: s.log)
        (.close b.session b.route)
      rw [Sent.session, hinit] at hclose
      show Talk b.session (talk (_ :: _ :: s.log) b.session)
      rw [hclose]
      exact .closed b.route b.targets [] (List.forall_mem_nil _)
  refine ⟨fun b' hb' => Nat.le_succ_of_le (h.ids b' hb'), h.distinct, fun session hlt => ?_,
    fun b' hb' => ?_, fun session hnone => ?_⟩
  · have hlt' : s.globalId + 1 < session := hlt
    exact (hother session (by omega)).trans (h.fresh session (by omega))
  · show Opened b' (talk (new ++ s.log) b'.session)
    rw [hother b'.session (hold b' hb')]
    exact h.opened b' hb'
  · show Talk session (talk (new ++ s.log) session)
    by_cases hsame : b.session = session
    · exact hsame ▸ hself
    · rw [hother session hsame]
      exact h.ended session hnone

theorem initBackend_talks (rep : Rep) (h : Talks s) (databases : List String) (ia : InitAnswer) :
    Talks (initBackend rep s databases ia).1 ∧
      (initBackend rep s databases ia).1.sets = s.sets ∧
      (∀ b ∈ s.backendList, b ∈ (initBackend rep s databases ia).1.backendList) ∧
      ∀ b, (initBackend rep s databases ia).2 = .ok b →
        b ∈ (initBackend rep s databases ia).1.backendList := by
  simp only [initBackend]
  cases hc : createBackendFromDatabases rep (s.globalId + 1) databases with
  | error e =>
    exact ⟨h.congr rfl rfl (Nat.le_succ _), rfl, fun b hb => hb, fun b hb => by cases hb⟩
  | ok b =>
    have hb := createBackend_session hc
    dsimp only
    split
    · have haccept := h.accept (b :=
        { b with namedResultSets := (ia.response.map (·.namedResultSets)).getD false }) hb
      refine ⟨haccept, rfl, fun b' hb' => List.mem_append_left _ hb', fun b' hb' => ?_⟩
      cases hb'
      exact List.mem_append_right _ (List.mem_singleton_self _)
    · cases ia.closed with
      | true =>
        exact ⟨h.refuse hb (.inl rfl), rfl, fun b hb => hb, fun b hb => by cases hb⟩
      | false =>
        exact ⟨h.refuse hb (.inr rfl), rfl, fun b hb => hb, fun b hb => by cases hb⟩

/-! ## Requests -/

/-- What every step keeps. -/
structure Conversed (s : St) : Prop where
  talks : Talks s
  sets : SetsKnown s

theorem searchOn_conversed (h : Conversed s) (hb : b ∈ s.backendList) (req : SearchRequest)
    (sa : SearchAnswer) : Conversed (searchOn rep s b req sa).1 := by
  have hbackends : (searchOn rep s b req sa).1.backendList = s.backendList ∧
      (searchOn rep s b req sa).1.globalId = s.globalId := searchOn_backends
  obtain ⟨hlist, hid⟩ := hbackends
  refine ⟨(h.talks.request (e := .search req.resultSetName b.session b.route
    (b.setname req.resultSetName) (b.databaseNames rep req.databaseNames) sa.ok) hb rfl rfl
      rfl).congr hlist searchOn_log (Nat.le_of_eq hid.symm), fun name set hlookup => ?_⟩
  rw [hlist]
  by_cases hname : name = req.resultSetName
  · subst hname
    rw [searchOn_lookup_self] at hlookup
    split at hlookup
    · cases hlookup
      exact hb
    · cases hlookup
  · rw [searchOn_lookup_ne hname] at hlookup
    exact h.sets name set hlookup

theorem scanOn_conversed (h : Conversed s) (hb : b ∈ s.backendList) (databases : List String)
    (closed : Bool) : Conversed (scanOn rep s b databases closed).1 where
  talks := (h.talks.request (e := .scan b.session b.route (b.databaseNames rep databases)) hb rfl rfl
    rfl).congr rfl rfl (Nat.le_refl _)
  sets := h.sets

theorem initBackend_conversed (rep : Rep) (h : Conversed s) (databases : List String) (ia : InitAnswer) :
    Conversed (initBackend rep s databases ia).1 ∧
      ∀ b, (initBackend rep s databases ia).2 = .ok b →
        b ∈ (initBackend rep s databases ia).1.backendList := by
  obtain ⟨htalks, hsets, hmem, hok⟩ := initBackend_talks rep h.talks databases ia
  refine ⟨⟨htalks, fun name set hlookup => ?_⟩, hok⟩
  rw [hsets] at hlookup
  exact hmem _ (h.sets name set hlookup)

theorem search_conversed (h : Conversed s) (req : SearchRequest) (ia : InitAnswer)
    (sa : SearchAnswer) : Conversed (search rep s req ia sa).1 := by
  rw [search]
  split
  · exact h
  · split
    · rename_i b hpick
      exact searchOn_conversed h (List.mem_of_find?_eq_some hpick) req sa
    · obtain ⟨hinit, hok⟩ := initBackend_conversed rep h req.databaseNames ia
      split
      · rename_i s' diag addinfo heq
        rw [heq] at hinit
        exact hinit
      · rename_i s' b heq
        rw [heq] at hinit hok
        exact searchOn_conversed hinit (hok b rfl) req sa

theorem present_conversed (h : Conversed s) (resultSetId : String) (closed : Bool) :
    Conversed (present s resultSetId closed).1 := by
  rw [present]
  split
  · exact h
  · rename_i set hlookup
    exact ⟨(h.talks.request (e := .present resultSetId set.backend.session set.backend.route
      set.setname) (h.sets resultSetId set hlookup) rfl rfl rfl).congr rfl rfl (Nat.le_refl _),
      h.sets⟩

theorem scan_conversed (h : Conversed s) (databases : List String) (ia : InitAnswer)
    (closed : Bool) : Conversed (scan rep s databases ia closed).1 := by
  rw [scan]
  split
  · rename_i b hfind
    exact scanOn_conversed h (List.mem_of_find?_eq_some hfind) databases closed
  · obtain ⟨hinit, hok⟩ := initBackend_conversed rep h databases ia
    split
    · rename_i s' diag addinfo heq
      rw [heq] at hinit
      exact hinit
    · rename_i s' b heq
      rw [heq] at hinit hok
      exact scanOn_conversed hinit (hok b rfl) databases closed

/-- A request to each of some backends, one after the other. -/
theorem relay_talks (h : Talks s) {l : List Backend} (hl : ∀ b ∈ l, b ∈ s.backendList) :
    Talks { s with log := (l.map fun b => .relay b.session b.route).reverse ++ s.log } := by
  induction l generalizing s with
  | nil => exact h
  | cons b l ih =>
    obtain ⟨hb, hl⟩ := List.forall_mem_cons.mp hl
    have hnext := ih (h.request (e := .relay b.session b.route) hb rfl rfl rfl) hl
    rw [List.map_cons, List.reverse_cons, List.append_assoc]
    exact hnext

theorem process_conversed (h : Conversed s) (a : Label) : Conversed (process rep s a).1 := by
  have hclosed (isClosed : Bool) : Conversed { s with isClosed } :=
    ⟨h.talks.congr rfl rfl (Nat.le_refl _), h.sets⟩
  cases a with
  | init => exact hclosed true
  | search req ia sa => exact search_conversed h req ia sa
  | present resultSetId closed => exact present_conversed h resultSetId closed
  | scan databases ia closed => exact scan_conversed h databases ia closed
  | close =>
    have hrelay := relay_talks h.talks (l := s.backendList) fun b hb => hb
    rw [process, relayApdu]
    split
    · rename_i s' heq
      obtain ⟨rfl, hlength⟩ := Prod.mk.inj heq
      exact ⟨hrelay.congr rfl rfl (Nat.le_refl _), h.sets⟩
    · rename_i s' n heq
      obtain ⟨rfl, hlength⟩ := Prod.mk.inj heq
      exact ⟨hrelay, h.sets⟩
  | unsupported => exact hclosed true
  | otherSession => exact ⟨h.talks.congr rfl rfl (Nat.le_succ _), h.sets⟩

theorem conversed_of_reach (h : Reach (step rep) init Any s) : Conversed s := by
  refine h.invariant (fun s hs => ?_) fun s a s' hi _ hs => ?_
  · obtain ⟨hlist, hsets, -, hlog⟩ := hs
    have htalk (session : Nat) : talk s.log session = [] := by
      rw [hlog]
      rfl
    refine ⟨⟨?_, ?_, fun session _ => htalk session, ?_, fun session _ => ?_⟩, ?_⟩
    · rw [hlist]
      exact List.forall_mem_nil _
    · rw [hlist]
      exact List.nodup_nil
    · rw [hlist]
      exact List.forall_mem_nil _
    · rw [htalk session]
      exact .silent
    · intro name set hlookup
      rw [hsets, AList.lookup_empty] at hlookup
      cases hlookup
  · rw [step] at hs
    split at hs
    · cases hs
    · cases hs
      exact process_conversed hi a

/-! ## The end of the session -/

theorem talk_append (new log : List Sent) (session : Nat) :
    talk (new ++ log) session = talk log session ++ talk new session := by
  rw [talk, List.filter_append, List.reverse_append]
  rfl

/-- Each backend gets its close, and only that. -/
theorem talk_finish (h : (s.backendList.map (·.session)).Nodup) (session : Nat) :
    (∀ b ∈ s.backendList, b.session = session →
      talk (finish s).log session = talk s.log session ++ [.close b.session b.route]) ∧
    ((∀ b ∈ s.backendList, b.session ≠ session) →
      talk (finish s).log session = talk s.log session) := by
  have hother {l : List Backend} (hl : ∀ b ∈ l, b.session ≠ session) :
      talk (l.map fun b => .close b.session b.route).reverse session = [] := by
    rw [talk, List.filter_reverse, List.reverse_reverse, List.filter_eq_nil_iff]
    intro e he
    obtain ⟨b, hb, rfl⟩ := List.mem_map.mp he
    rw [decide_eq_true_eq]
    exact hl b hb
  have hfinish : talk (finish s).log session = talk s.log session ++
      talk (s.backendList.map fun b => .close b.session b.route).reverse session :=
    talk_append _ _ _
  refine ⟨fun b hb hsession => ?_, fun hnone => ?_⟩
  · obtain ⟨before, after, hsplit⟩ := List.append_of_mem hb
    rw [hsplit, List.map_append, List.map_cons, List.nodup_append, List.nodup_cons] at h
    obtain ⟨-, ⟨hafter, -⟩, hdisjoint⟩ := h
    have hbefore' : ∀ b' ∈ before, b'.session ≠ session := fun b' hb' =>
      hsession ▸ hdisjoint _ (List.mem_map_of_mem hb') _ List.mem_cons_self
    have hafter' : ∀ b' ∈ after, b'.session ≠ session := fun b' hb' hsame =>
      hafter (List.mem_map.mpr ⟨b', hb', hsame.trans hsession.symm⟩)
    rw [hfinish, hsplit, List.map_append, List.map_cons, List.reverse_append, List.reverse_cons,
      List.append_assoc, talk_append, talk_append, hother hbefore', hother hafter', List.append_nil,
      List.nil_append]
    subst hsession
    exact congrArg _ (talk_cons_self [] (.close b.session b.route))
  · rw [hfinish, hother hnone, List.append_nil]

/-- A backend that has accepted gets requests on its route, and its close at the end. -/
theorem Talks.opened_finish (h : Talks s) (hb : b ∈ s.backendList) :
    ∃ requests, OnRoute b.route requests ∧
      talk (finish s).log b.session =
        .init b.session b.route b.targets :: (requests ++ [.close b.session b.route]) := by
  obtain ⟨requests, hsent, hall⟩ := h.opened b hb
  refine ⟨requests, hall, ?_⟩
  rw [(talk_finish h.distinct b.session).1 b hb rfl, hsent]
  rfl

theorem Talks.finish (h : Talks s) (session : Nat) :
    Talk session (talk (finish s).log session) := by
  by_cases hnone : ∀ b ∈ s.backendList, b.session ≠ session
  · rw [(talk_finish h.distinct session).2 hnone]
    exact h.ended session hnone
  · push Not at hnone
    obtain ⟨b, hb, rfl⟩ := hnone
    obtain ⟨requests, hall, hsent⟩ := h.opened_finish hb
    rw [hsent]
    exact .closed b.route b.targets requests hall

theorem opened_of_reach (h : Reach (step rep) init Any s) (hb : b ∈ s.backendList) :
    ∃ requests, OnRoute b.route requests ∧
      talk (finish s).log b.session =
        .init b.session b.route b.targets :: (requests ++ [.close b.session b.route]) :=
  (conversed_of_reach h).talks.opened_finish hb

theorem talk_of_reach (h : Reach (step rep) init Any s) (session : Nat) :
    Talk session (talk (finish s).log session) :=
  (conversed_of_reach h).talks.finish session

/-- Every session of a client, whatever its backends answer. When it is over, all that was sent on a
backend session is nothing, an init that was not accepted, or an init, requests on its route and one
close; and a backend that accepted has got all of these. -/
theorem conversations (h : Reach (step rep) init Any s) (session : Nat) :
    Talk session (talk (finish s).log session) ∧
    ∀ b ∈ s.backendList, ∃ requests, OnRoute b.route requests ∧
      talk (finish s).log b.session =
        .init b.session b.route b.targets :: (requests ++ [.close b.session b.route]) :=
  ⟨talk_of_reach h session, fun _ hb => opened_of_reach h hb⟩

theorem conversations_replaceFirst :
    ∃ s : St, ∃ requests, talk (finish s).log 1 =
      .init 1 "" ["target"] :: (requests ++ [.close 1 ""]) := by
  have hinit : init emptySession := ⟨rfl, rfl, rfl, rfl⟩
  have hrun : (run (step oneDatabase) emptySession replaceFirst).any
      (fun s => s.backendList.head? = some ⟨1, ["db"], ["target"], "", false⟩) := by
    decide
  obtain ⟨s, hs, hp⟩ := Reach.exists_of_run hinit (runOk_any _ _) hrun
  have hmem : (⟨1, ["db"], ["target"], "", false⟩ : Backend) ∈ s.backendList :=
    List.mem_of_head? (of_decide_eq_true hp)
  obtain ⟨requests, -, hsent⟩ := (conversations hs 1).2 _ hmem
  exact ⟨s, requests, hsent⟩

/-! ## What was sent before -/

/-- The session after something else has been sent. -/
def St.after (s : St) (before : List Sent) : St := { s with log := s.log ++ before }

variable {before : List Sent}

theorem searchOn_after (req : SearchRequest) (sa : SearchAnswer) :
    searchOn rep (s.after before) b req sa =
      ((searchOn rep s b req sa).1.after before, (searchOn rep s b req sa).2) := by
  simp only [searchOn]
  split
  · rfl
  · split <;> rfl

theorem initBackend_after (databases : List String) (ia : InitAnswer) :
    initBackend rep (s.after before) databases ia =
      ((initBackend rep s databases ia).1.after before, (initBackend rep s databases ia).2) := by
  have hid : (s.after before).globalId = s.globalId := rfl
  simp only [initBackend, hid]
  cases createBackendFromDatabases rep (s.globalId + 1) databases with
  | error e => rfl
  | ok b =>
    dsimp only
    split
    · rfl
    · cases ia.closed <;> rfl

theorem search_after (req : SearchRequest) (ia : InitAnswer) (sa : SearchAnswer) :
    search rep (s.after before) req ia sa =
      ((search rep s req ia sa).1.after before, (search rep s req ia sa).2) := by
  have hsets : (s.after before).sets = s.sets := rfl
  have hpick (overrideSet : Bool) : pickBackend (s.after before) req.databaseNames overrideSet =
      pickBackend s req.databaseNames overrideSet := rfl
  simp only [search, hsets, hpick, initBackend_after]
  split
  · rfl
  · cases pickBackend s req.databaseNames (s.sets.lookup req.resultSetName).isSome with
    | some b => exact searchOn_after req sa
    | none =>
      dsimp only
      cases hinit : (initBackend rep s req.databaseNames ia).2 with
      | error e =>
        rw [← Prod.eta (initBackend rep s req.databaseNames ia), hinit]
      | ok b =>
        rw [← Prod.eta (initBackend rep s req.databaseNames ia), hinit]
        exact searchOn_after req sa

theorem scan_after (databases : List String) (ia : InitAnswer) (closed : Bool) :
    scan rep (s.after before) databases ia closed =
      ((scan rep s databases ia closed).1.after before, (scan rep s databases ia closed).2) := by
  have hlist : (s.after before).backendList = s.backendList := rfl
  simp only [scan, hlist, initBackend_after]
  cases s.backendList.find? fun b => Util.match_ b.frontendDatabases databases with
  | some b => rfl
  | none =>
    dsimp only
    cases hinit : (initBackend rep s databases ia).2 with
    | error e =>
      rw [← Prod.eta (initBackend rep s databases ia), hinit]
    | ok b =>
      rw [← Prod.eta (initBackend rep s databases ia), hinit]
      rfl

/-- What a request does and sends does not depend on what has been sent. -/
theorem process_after (a : Label) :
    (process rep (s.after before) a).1 = (process rep s a).1.after before := by
  cases a with
  | init => rfl
  | search req ia sa => exact congrArg Prod.fst (search_after req ia sa)
  | present resultSetId closed =>
    have hsets : (s.after before).sets = s.sets := rfl
    simp only [process, present, hsets]
    cases s.sets.lookup resultSetId with
    | none => rfl
    | some set => rfl
  | scan databases ia closed => exact congrArg Prod.fst (scan_after databases ia closed)
  | close =>
    have hrelay : relayApdu (s.after before) =
        ((relayApdu s).1.after before, (relayApdu s).2) := by
      simp only [relayApdu, St.after, List.append_assoc]
    simp only [process, hrelay]
    rw [← Prod.eta (relayApdu s)]
    cases (relayApdu s).2 with
    | zero => rfl
    | succ n => rfl
  | unsupported => rfl
  | otherSession => rfl

end VirtualDB
end Metaproxy
