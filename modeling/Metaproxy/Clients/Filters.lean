import Metaproxy.Clients.Closing
import Metaproxy.Multi.Served
import Metaproxy.VirtualDB.Sets

/-!
# Clients.Filters

`virt_db` and `multi` as filters of `Clients.Rep`, with the backend sessions they open and close.
One that comes back closed from its init has not been opened. `session_shared` and `sort` have no
backend sessions of their own.

* `virtDb_closes`, `multi_closes` — both hold what they open until they send a closing package.
* `last_release_decides` — once its packages have left, nothing is left of a session if and only if
  the last one was released closed.
* `waiting_leaks` — a package that waits behind the one that closes.
-/

namespace Metaproxy
namespace Clients

open Lib

/-! ## `virt_db` -/

section VirtualDB

open VirtualDB (Sent)

/-- Backend sessions have the ids that `st` gives them. -/
structure VirtualFrontend where
  isVirtual : Bool
  st : VirtualDB.St

/-- `request` is `none` for a package without a Z39.50 request, and `vhosts` tells whether an init
request names targets; `closed` is what comes back when the package is moved on. -/
structure VirtualWork where
  request : Option VirtualDB.Label
  vhosts : Bool
  closed : Bool

/-- The init package of the request comes back closed. -/
def initClosed : VirtualDB.Label → Bool
  | .search _ ia _ => ia.closed
  | .scan _ ia _ => ia.closed
  | _ => false

def virtualTraffic (closed : Bool) (log : List Sent) : List Traffic :=
  log.filterMap fun
    | .init session _ _ => if closed then none else some (.opened session)
    | .close session _ => some (.closing session)
    | _ => none

def virtDb (rep : VirtualDB.Rep) (passVhosts : Bool) :
    Filter VirtualFrontend VirtualWork Traffic where
  create := ⟨false, ⟨[], ∅, 0, false, []⟩⟩
  process f w :=
    match f.isVirtual, w.request with
    | false, some .init =>
      if w.vhosts && passVhosts then (f, w.closed, []) else ({ f with isVirtual := true }, false, [])
    | false, _ => (f, w.closed, [])
    | true, some a =>
      let s := (VirtualDB.process rep { f.st with isClosed := false, log := [] } a).1
      ({ f with st := s }, s.isClosed, virtualTraffic (initClosed a) s.log)
    | true, none => (f, false, [])
  close f := f.st.backendList.map fun b => .closing b.session

def VirtualFrontend.sessions (f : VirtualFrontend) : List Nat :=
  f.st.backendList.map VirtualDB.Backend.session

variable {rep : VirtualDB.Rep} {s s' : VirtualDB.St} {closed : Bool}

/-- No backend gets lost; one whose init was sent is in the list, unless it has closed itself or
been sent a close. -/
structure Holds (closed : Bool) (s s' : VirtualDB.St) : Prop where
  backends : ∀ b ∈ s.backendList, b ∈ s'.backendList
  inits : ∀ session route targets, .init session route targets ∈ s'.log →
    .init session route targets ∈ s.log ∨ closed = true ∨
      session ∈ s'.backendList.map VirtualDB.Backend.session ∨ ∃ route, .close session route ∈ s'.log

theorem Holds.refl (closed : Bool) (s : VirtualDB.St) : Holds closed s s :=
  ⟨fun _ h => h, fun _ _ _ h => .inl h⟩

/-- Packages that are not init packages. -/
theorem Holds.append {s'' : VirtualDB.St} (new : List Sent) (h : Holds closed s s')
    (hbackends : s''.backendList = s'.backendList) (hlog : s''.log = new ++ s'.log)
    (hnew : ∀ session route targets, .init session route targets ∉ new) : Holds closed s s'' := by
  refine ⟨fun b hb => ?_, fun session route targets hmem => ?_⟩
  · rw [hbackends]
    exact h.backends b hb
  · rw [hbackends, hlog]
    rw [hlog] at hmem
    have hold := (List.mem_append.mp hmem).resolve_left (hnew session route targets)
    rcases h.inits session route targets hold with hold | hc | hb | ⟨route, hclose⟩
    · exact .inl hold
    · exact .inr (.inl hc)
    · exact .inr (.inr (.inl hb))
    · exact .inr (.inr (.inr ⟨route, List.mem_append_right _ hclose⟩))

theorem initBackend_holds (rep : VirtualDB.Rep) (s : VirtualDB.St) (databases : List String) (ia : VirtualDB.InitAnswer) :
    Holds ia.closed s (VirtualDB.initBackend rep s databases ia).1 := by
  simp only [VirtualDB.initBackend]
  cases VirtualDB.createBackendFromDatabases rep (s.globalId + 1) databases with
  | error e => exact ⟨fun _ h => h, fun _ _ _ h => .inl h⟩
  | ok b =>
    simp only
    split
    · -- accepted
      refine ⟨fun b hb => List.mem_append_left _ hb, fun session route targets hmem => ?_⟩
      rcases List.mem_cons.mp hmem with heq | hmem
      · cases heq
        exact .inr (.inr (.inl (by simp)))
      · exact .inl hmem
    · cases hc : ia.closed with
      | true => exact ⟨fun _ h => h, fun _ _ _ _ => .inr (.inl rfl)⟩
      | false =>
        -- the target has refused
        refine ⟨fun _ h => h, fun session route targets hmem => ?_⟩
        rcases List.mem_cons.mp hmem with heq | hmem
        · cases heq
        · rcases List.mem_cons.mp hmem with heq | hmem
          · cases heq
            exact .inr (.inr (.inr ⟨_, List.mem_cons_self⟩))
          · exact .inl hmem

theorem searchOn_holds {b : VirtualDB.Backend} {req : VirtualDB.SearchRequest}
    {sa : VirtualDB.SearchAnswer} (h : Holds closed s s') :
    Holds closed s (VirtualDB.searchOn rep s' b req sa).1 :=
  h.append [_] VirtualDB.searchOn_backends.1 VirtualDB.searchOn_log (by simp)

theorem process_holds (s : VirtualDB.St) (a : VirtualDB.Label) :
    Holds (initClosed a) s (VirtualDB.process rep s a).1 := by
  have hself := Holds.refl (initClosed a) s
  cases a with
  | init => exact hself.append [] rfl rfl (by simp)
  | search req ia sa =>
    simp only [VirtualDB.process, VirtualDB.search]
    split
    · exact hself
    · split
      · exact searchOn_holds hself
      · have hinit := initBackend_holds rep s req.databaseNames ia
        split
        · rename_i s1 diag addinfo heq
          rw [heq] at hinit
          exact hinit
        · rename_i s1 b heq
          rw [heq] at hinit
          exact searchOn_holds hinit
  | present name closed =>
    simp only [VirtualDB.process, VirtualDB.present]
    split
    · exact hself
    · exact hself.append [_] rfl rfl (by simp)
  | scan databases ia closed =>
    simp only [VirtualDB.process, VirtualDB.scan]
    split
    · exact hself.append [_] rfl rfl (by simp)
    · have hinit := initBackend_holds rep s databases ia
      split
      · rename_i s1 diag addinfo heq
        rw [heq] at hinit
        exact hinit
      · rename_i s1 b heq
        rw [heq] at hinit
        exact hinit.append [_] rfl rfl (by simp)
  | close =>
    have hrelay : Holds (initClosed .close) s (VirtualDB.relayApdu s).1 :=
      hself.append _ rfl rfl (by simp)
    simp only [VirtualDB.process]
    split
    · rename_i s1 heq
      rw [heq] at hrelay
      exact hrelay.append [] rfl rfl (by simp)
    · rename_i s1 n heq
      rw [heq] at hrelay
      exact hrelay
  | unsupported => exact hself.append [] rfl rfl (by simp)
  | otherSession => exact hself.append [] rfl rfl (by simp)

theorem mem_virtualTraffic {log : List Sent} {session : Nat} :
    (.opened session ∈ virtualTraffic closed log ↔
      closed = false ∧ ∃ route targets, .init session route targets ∈ log) ∧
    (.closing session ∈ virtualTraffic closed log ↔ ∃ route, .close session route ∈ log) := by
  induction log with
  | nil => simp [virtualTraffic]
  | cons e log ih =>
    obtain ⟨hopened, hclosing⟩ := ih
    simp only [virtualTraffic] at hopened hclosing ⊢
    rw [List.filterMap_cons]
    cases e with
    | init session' route targets => cases closed <;> simp_all [exists_or]
    | close session' route => simp_all [exists_or]
    | _ => simp_all

/-- What a package does to the backend sessions: nothing, or what its request does. -/
theorem virtDb_process (rep : VirtualDB.Rep) (passVhosts : Bool) (f : VirtualFrontend) (w : VirtualWork) :
    (((virtDb rep passVhosts).process f w).1.st = f.st ∧
      ((virtDb rep passVhosts).process f w).2.2 = []) ∨
    ∃ a, ((virtDb rep passVhosts).process f w).1.st =
        (VirtualDB.process rep { f.st with isClosed := false, log := [] } a).1 ∧
      ((virtDb rep passVhosts).process f w).2.2 = virtualTraffic (initClosed a)
        (VirtualDB.process rep { f.st with isClosed := false, log := [] } a).1.log := by
  simp only [virtDb]
  split
  · split
    · exact .inl ⟨rfl, rfl⟩
    · exact .inl ⟨rfl, rfl⟩
  · exact .inl ⟨rfl, rfl⟩
  · exact .inr ⟨_, rfl, rfl⟩
  · exact .inl ⟨rfl, rfl⟩

theorem virtDb_closes (rep : VirtualDB.Rep) (passVhosts : Bool) :
    Closes (virtDb rep passVhosts) VirtualFrontend.sessions where
  keeps f w b hb := by
    unfold VirtualFrontend.sessions at hb ⊢
    rcases virtDb_process rep passVhosts f w with ⟨hst, -⟩ | ⟨a, hst, -⟩
    · rw [hst]
      exact .inl hb
    · rw [hst]
      obtain ⟨backend, hmem, rfl⟩ := List.mem_map.mp hb
      exact .inl (List.mem_map_of_mem ((process_holds _ a).backends backend hmem))
  opens f w b hb := by
    unfold VirtualFrontend.sessions
    rcases virtDb_process rep passVhosts f w with ⟨-, htraffic⟩ | ⟨a, hst, htraffic⟩
    · rw [htraffic] at hb
      cases hb
    · rw [htraffic] at hb ⊢
      rw [hst, mem_virtualTraffic.2]
      obtain ⟨hopen, route, targets, hmem⟩ := mem_virtualTraffic.1.mp hb
      rcases (process_holds _ a).inits b route targets hmem with hold | hc | hlist | hclose
      · cases hold
      · rw [hopen] at hc
        cases hc
      · exact .inl hlist
      · exact .inr hclose
  close f b hb := by
    obtain ⟨backend, hmem, rfl⟩ := List.mem_map.mp hb
    exact List.mem_map.mpr ⟨backend, hmem, rfl⟩
  close_opens f b hb := by
    obtain ⟨backend, -, heq⟩ := List.mem_map.mp hb
    cases heq

end VirtualDB

/-! ## `multi` -/

section Multi

open Multi (BackendPtr Outcome)

variable {ρ : Type*}

/-- `closed` is what comes back when the package is moved on. -/
structure MultiWork (ρ : Type*) where
  request : Multi.Request
  out : BackendPtr → Outcome ρ
  pout : BackendPtr → Outcome ρ
  closed : Bool

/-- Only `init` sends init packages. -/
def multiTraffic (out : BackendPtr → Outcome ρ) (sent : List (BackendPtr × Multi.Request)) :
    List Traffic :=
  sent.filterMap fun
    | (b, .init _) => if (out b).closed then none else some (.opened b)
    | _ => none

def multi (rep : Multi.Rep) : Filter (Multi.Frontend ρ) (MultiWork ρ) Traffic where
  create := .new
  process f w :=
    match Multi.process rep f w.request w.out w.pout with
    | some r => (r.frontend, r.closed, multiTraffic w.out r.sent)
    | none => (f, w.closed, [])
  close f := f.close.map fun e => .closing e.1

/-- The backends of a frontend that has been initialized. -/
def multiSessions (f : Multi.Frontend ρ) : List Nat := if f.isMulti then f.backendList else []

theorem mem_multiTraffic {out : BackendPtr → Outcome ρ} {sent : List (BackendPtr × Multi.Request)}
    {b : BackendPtr} : .opened b ∈ multiTraffic out sent ↔
      (out b).closed = false ∧ ∃ req, (b, .init req) ∈ sent := by
  unfold multiTraffic
  rw [List.mem_filterMap]
  constructor
  · rintro ⟨⟨b', request⟩, hmem, heq⟩
    cases request with
    | init req =>
      simp only at heq
      split_ifs at heq with hclosed
      cases heq
      exact ⟨by simpa using hclosed, req, hmem⟩
    | _ => cases heq
  · rintro ⟨hclosed, req, hmem⟩
    exact ⟨_, hmem, by simp [hclosed]⟩

/-- After its init a frontend keeps its backends, and sends no init. -/
structure Stays (f : Multi.Frontend ρ) (r : Multi.Result ρ) : Prop where
  isMulti : r.frontend.isMulti = f.isMulti
  backendList : r.frontend.backendList = f.backendList
  sent : ∀ e ∈ r.sent, ∀ req, e.2 ≠ .init req

variable {rep : Multi.Rep} {f : Multi.Frontend ρ} {out pout : BackendPtr → Outcome ρ}

theorem stays_of_map {r : Multi.Result ρ} {α : Type*} {l : List α} {g : α → BackendPtr × Multi.Request}
    (hmulti : r.frontend.isMulti = f.isMulti) (hlist : r.frontend.backendList = f.backendList)
    (hsent : r.sent = l.map g) (hg : ∀ x req, (g x).2 ≠ .init req) : Stays f r := by
  refine ⟨hmulti, hlist, fun e he req => ?_⟩
  rw [hsent] at he
  obtain ⟨x, -, rfl⟩ := List.mem_map.mp he
  exact hg x req

theorem present_stays (req : Z3950.PresentRequest) : Stays f (Multi.present rep f req out) := by
  cases hset : f.sets.lookup req.resultSetId with
  | none =>
    unfold Multi.present
    rw [hset]
    exact ⟨rfl, rfl, fun _ he => absurd he List.not_mem_nil⟩
  | some fset =>
    rw [Multi.present_eq hset]
    exact stays_of_map rfl rfl rfl fun _ _ => nofun

theorem search_stays (req : Multi.SearchRequest) :
    Stays f (Multi.search rep f req out pout) := by
  cases hclose : (Multi.look Multi.Gdu.searchRecords (f.multiMove f.backendList out)
      f.backendList).close rep.hideUnavailable with
  | some b =>
    have hlist : (f.multiMove f.backendList out).backendList = f.backendList := rfl
    unfold Multi.search
    simp only [hlist, hclose]
    exact stays_of_map rfl rfl rfl fun _ _ => nofun
  | none =>
    rw [Multi.search_eq hclose]
    split_ifs
    · refine ⟨(present_stays _).isMulti, (present_stays _).backendList, fun e he req => ?_⟩
      rcases List.mem_append.mp he with he | he
      · obtain ⟨b, -, rfl⟩ := List.mem_map.mp he
        nofun
      · exact (present_stays _).sent e he req
    · exact stays_of_map rfl rfl rfl fun _ _ => nofun

theorem scan_stays (req : Multi.ScanRequest) : Stays f (f.scan rep req out) := by
  unfold Multi.Frontend.scan
  simp only
  split
  all_goals exact stays_of_map rfl rfl rfl fun _ _ => nofun

theorem stays_of_nothing (closed : Bool) (answer : Multi.Answer ρ) :
    Stays f ⟨f, [], [], closed, answer⟩ :=
  ⟨rfl, rfl, fun _ he => absurd he List.not_mem_nil⟩

theorem process_stays {request : Multi.Request} {r : Multi.Result ρ} (hmulti : f.isMulti = true)
    (h : Multi.process rep f request out pout = some r) : Stays f r := by
  unfold Multi.process at h
  rw [hmulti] at h
  cases request with
  | init req =>
    cases h
    exact stays_of_nothing _ _
  | search req =>
    cases h
    exact search_stays req
  | present req =>
    cases h
    exact present_stays req
  | scan req =>
    cases h
    exact scan_stays req
  | close =>
    cases h
    exact stays_of_map rfl rfl rfl fun _ _ => nofun
  | other encoding =>
    cases h
    exact stays_of_nothing _ _
  | none =>
    cases h
    exact stays_of_nothing _ _

/-- The backends that have come back open are in the list. -/
theorem init_holds {req : Multi.InitRequest} {r : Multi.Result ρ}
    (h : Multi.init rep f req out = some r) : r.frontend.isMulti = true ∧
      ∀ e ∈ r.sent, (out e.1).closed = false → e.1 ∈ r.frontend.backendList := by
  unfold Multi.init at h
  by_cases hnil : req.vhosts = []
  · rw [if_pos hnil] at h
    cases h
  · rw [if_neg hnil] at h
    cases h
    refine ⟨rfl, fun e he hopen => ?_⟩
    obtain ⟨b, hb, rfl⟩ := List.mem_map.mp he
    refine List.mem_filter.mpr ⟨hb, ?_⟩
    rw [Multi.isClosed_multiMove, if_pos hb, hopen]
    rfl

theorem multi_process_some {w : MultiWork ρ} {r : Multi.Result ρ}
    (h : Multi.process rep f w.request w.out w.pout = some r) :
    (multi rep).process f w = (r.frontend, r.closed, multiTraffic w.out r.sent) := by
  simp only [multi, h]

theorem multi_process_none {w : MultiWork ρ}
    (h : Multi.process rep f w.request w.out w.pout = none) :
    (multi rep).process f w = (f, w.closed, []) := by
  simp only [multi, h]

theorem multi_closes (rep : Multi.Rep) : Closes (multi (ρ := ρ) rep) multiSessions where
  keeps f w b hb := by
    cases hr : Multi.process rep f w.request w.out w.pout with
    | none =>
      rw [multi_process_none hr]
      exact .inl hb
    | some r =>
      rw [multi_process_some hr]
      unfold multiSessions at hb ⊢
      split_ifs at hb with hmulti
      · have hstays := process_stays hmulti hr
        simp only
        rw [hstays.backendList, if_pos (hstays.isMulti.trans hmulti)]
        exact .inl hb
      · cases hb
  opens f w b hb := by
    cases hr : Multi.process rep f w.request w.out w.pout with
    | none =>
      rw [multi_process_none hr] at hb
      cases hb
    | some r =>
      rw [multi_process_some hr] at hb ⊢
      obtain ⟨hopen, req, hsent⟩ := mem_multiTraffic.mp hb
      cases hmulti : f.isMulti with
      | true => exact absurd rfl ((process_stays hmulti hr).sent _ hsent req)
      | false =>
        unfold Multi.process at hr
        rw [hmulti] at hr
        cases hreq : w.request with
        | init req =>
          rw [hreq] at hr
          obtain ⟨hinit, hlist⟩ := init_holds hr
          unfold multiSessions
          rw [if_pos hinit]
          exact .inl (hlist _ hsent hopen)
        | _ =>
          rw [hreq] at hr
          cases hr
  close f b hb := by
    unfold multiSessions at hb
    split_ifs at hb
    · exact List.mem_map.mpr ⟨_, List.mem_map_of_mem hb, rfl⟩
    · cases hb
  close_opens f b hb := by
    obtain ⟨e, -, heq⟩ := List.mem_map.mp hb
    cases heq

end Multi

/-! ## What is left of a session -/

/-- Whatever the filter, in every run: once all packages of a session have left, one of them closed,
it has no entry if and only if the last one was released closed. Then `virt_db` and `multi` have
also closed every backend session they opened for it. The last one was, if none is ever released
open after one that was closed. -/
theorem last_release_decides {φ α ε ρ : Type*} (F : Filter φ α ε) (vrep : VirtualDB.Rep)
    (passVhosts : Bool) (mrep : Multi.Rep) (i : SessionId) :
    (∀ s : St φ ε, Reach (step F) init Any s → Left i s →
      (s.clients.lookup i = none ↔ lastRelease i s.log = some true)) ∧
    (∀ s : St VirtualFrontend Traffic, Reach (step (virtDb vrep passVhosts)) init Any s →
      Left i s → (Leaves i s ↔ lastRelease i s.log = some true)) ∧
    (∀ s : St (Multi.Frontend ρ) Traffic, Reach (step (multi mrep)) init Any s →
      Left i s → (Leaves i s ↔ lastRelease i s.log = some true)) ∧
    ∀ s : St φ ε, Reach (step F) init InOrder s → Left i s → lastRelease i s.log = some true :=
  ⟨fun _ h hleft => entry_iff h hleft,
    fun _ h hleft => leaves_iff (virtDb_closes vrep passVhosts) h hleft,
    fun _ h hleft => leaves_iff (multi_closes mrep) h hleft,
    fun _ h hleft => lastRelease_of_inOrder h hleft.closed⟩

/-- One database for all names, on one target. -/
def anyDatabase : VirtualDB.Rep where
  maps := [⟨"*", ["target"], ""⟩]
  matchGlob _ _ := true
  hostArgs _ := none

/-- A request of a session that is virtual. -/
def request (a : VirtualDB.Label) : VirtualWork := ⟨some a, false, false⟩

/-- An init, a search that opens a backend session, and a request that closes. -/
def closedLast : List (Label VirtualWork) :=
  [.arrive 0 ⟨7, false⟩, .work 0 (request .init), .release 0,
    .arrive 1 ⟨7, false⟩, .work 1 (request (.search ⟨"1", true, ["db"]⟩
      ⟨some ⟨true, true, none⟩, false⟩ ⟨some .none, false⟩)), .release 1,
    .arrive 2 ⟨7, false⟩, .work 2 (request .unsupported), .release 2]

theorem last_release_decides_closed : ∃ s : St VirtualFrontend Traffic,
    .sent 7 0 (.opened 1) ∈ s.log ∧ Leaves 7 s := by
  have hrun : (run (step (virtDb anyDatabase false)) (.start (virtDb anyDatabase false))
      closedLast).any fun s => (closedLast.all fun a => (s.packages a.package).pc = .outside) &&
        (decide (.released 7 true ∈ s.log) &&
          (decide (.sent 7 0 (.opened 1) ∈ s.log) && lastRelease 7 s.log = some true)) := by
    decide
  obtain ⟨s, h, hleft, hs⟩ := exists_left hrun
  simp only [Bool.and_eq_true, decide_eq_true_eq] at hs
  obtain ⟨hopened, hlast⟩ := hs
  have hdecides := last_release_decides (ρ := Unit) plain anyDatabase false Multi.hidingRep 7
  exact ⟨s, hopened, (hdecides.2.1 s h hleft).mpr hlast⟩

/-- A request that was sent behind the close of the client: its package waits, and then finds no
entry. -/
def closedBefore : List (Label VirtualWork) :=
  [.arrive 0 ⟨7, false⟩, .work 0 (request .init), .release 0,
    .arrive 1 ⟨7, false⟩, .arrive 2 ⟨7, false⟩, .work 1 (request .close), .release 1,
    .wake 2, .work 2 (request (.present "1" false)), .release 2]

theorem waiting_leaks : ¬ ∀ (rep : VirtualDB.Rep) (passVhosts : Bool) (i : SessionId)
    (s : St VirtualFrontend Traffic), Reach (step (virtDb rep passVhosts)) init Any s → Left i s →
      Leaves i s := by
  intro hclaim
  have hrun : (run (step (virtDb anyDatabase false)) (.start (virtDb anyDatabase false))
      closedBefore).any fun s =>
        (closedBefore.all fun a => (s.packages a.package).pc = .outside) &&
          (decide (.released 7 true ∈ s.log) && s.clients.lookup 7 = some 1) := by
    decide
  obtain ⟨s, h, hleft, hs⟩ := exists_left hrun
  have hnone := (hclaim anyDatabase false 7 s h hleft).entry
  rw [of_decide_eq_true hs] at hnone
  cases hnone

end Clients
end Metaproxy
