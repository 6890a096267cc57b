import Metaproxy.BackendTest.Sessions
import Metaproxy.VirtualDB.Conversation

/-!
# VirtualDB.OnBackendTest

`virt_db` in front of `backend_test`, among packages of any other sessions. While the client asks for
no scan, which `backend_test` does not have, and sends no close of its own, no package of `virt_db` is
refused for want of an init, and when the session is over the target has none of its sessions left
(`keeps_to_sessions`).
-/

namespace Metaproxy
namespace VirtualDB

open Lib

/-- The package that is sent. What `virt_db` passes on of the request of its client is the client's
affair, and the model of it leaves that out. -/
def Sent.Carries (e : Sent) (p : BackendTest.Package) : Prop :=
  p.session = e.session ∧
    match e, p.request with
    | .init .., some (.init _) => p.closed = false
    | .search _ _ _ setname _ _, some (.search req) =>
      p.closed = false ∧ req.resultSetName = setname
    | .present _ _ _ setname, some (.present req) => p.closed = false ∧ req.resultSetId = setname
    | .scan .., some .other => p.closed = false
    | .relay .., some .close => p.closed = false
    | .close .., none => p.closed = true
    | _, _ => False

/-- A client that neither scans nor closes by an APDU. -/
def Plain (log : List Sent) : Prop :=
  ∀ e ∈ log, (∀ session route databases, e ≠ .scan session route databases) ∧
    ∀ session route, e ≠ .relay session route

variable {e : Sent} {p : BackendTest.Package} {rep : Rep} {s : St}

theorem Sent.Carries.isInit (h : e.Carries p) {session : Nat} {route : String}
    {vhosts : List String} (he : e = .init session route vhosts) :
    p.isInit = true ∧ p.closed = false := by
  subst he
  obtain ⟨session', closed, request⟩ := p
  obtain ⟨-, h⟩ := h
  cases request with
  | none => exact h.elim
  | some req =>
    cases req with
    | init req => exact ⟨rfl, h⟩
    | _ => exact h.elim

theorem Sent.Carries.keeps (h : e.Carries p) (hrequest : e.isRequest = true)
    (hscan : ∀ session route databases, e ≠ .scan session route databases)
    (hrelay : ∀ session route, e ≠ .relay session route) : p.keeps = true := by
  obtain ⟨session', closed, request⟩ := p
  obtain ⟨-, h⟩ := h
  cases e with
  | init => cases hrequest
  | scan session route databases => exact absurd rfl (hscan session route databases)
  | relay session route => exact absurd rfl (hrelay session route)
  | close => cases hrequest
  | search set session route setname databases ok =>
    cases request with
    | none => exact h.elim
    | some req =>
      cases req with
      | search req =>
        obtain ⟨rfl, -⟩ := h
        rfl
      | _ => exact h.elim
  | present set session route setname =>
    cases request with
    | none => exact h.elim
    | some req =>
      cases req with
      | present req =>
        obtain ⟨rfl, -⟩ := h
        obtain ⟨id, start, number, syntax_, _ | composition⟩ := req
        · rfl
        · cases composition <;> rfl
      | _ => exact h.elim

theorem Sent.Carries.close {session : Nat} {route : String}
    (h : (Sent.close session route).Carries p) : p.request = none ∧ p.keeps = false := by
  obtain ⟨session', closed, request⟩ := p
  obtain ⟨-, h⟩ := h
  cases request with
  | none =>
    refine ⟨rfl, ?_⟩
    show (!closed) = false
    rw [show closed = true from h]
    rfl
  | some req => exact h.elim

theorem carried_concat {requests : List Sent} {last : Sent} {packages : List BackendTest.Package}
    (h : List.Forall₂ Sent.Carries (requests ++ [last]) packages) :
    ∃ before p, packages = before ++ [p] ∧ last.Carries p ∧
      ∀ q ∈ before, ∃ e ∈ requests, e.Carries q := by
  induction requests generalizing packages with
  | nil =>
    obtain ⟨p, rest, hp, hrest, rfl⟩ := List.forall₂_cons_left_iff.mp h
    cases hrest
    exact ⟨[], p, rfl, hp, List.forall_mem_nil _⟩
  | cons e requests ih =>
    obtain ⟨q, rest, hq, hrest, rfl⟩ := List.forall₂_cons_left_iff.mp h
    obtain ⟨before, p, rfl, hp, hall⟩ := ih hrest
    refine ⟨q :: before, p, rfl, hp, List.forall_mem_cons.mpr ⟨⟨e, List.mem_cons_self, hq⟩, ?_⟩⟩
    intro q' hq'
    obtain ⟨e', he', hcarries⟩ := hall q' hq'
    exact ⟨e', List.mem_cons_of_mem e he', hcarries⟩

/-- The packages of a conversation with requests that keep the session open. -/
theorem carried_closed {session : Nat} {route : String} {vhosts : List String}
    {requests : List Sent} (hplain : Plain requests) (hrequests : OnRoute route requests)
    {packages : List BackendTest.Package} (h : List.Forall₂ Sent.Carries
      (.init session route vhosts :: (requests ++ [.close session route])) packages) :
    ∃ first kept last, packages = first :: (kept ++ [last]) ∧
      (first.session = session ∧ first.isInit = true ∧ first.closed = false) ∧
      (∀ q ∈ kept, q.keeps = true) ∧ last.session = session ∧ last.request = none ∧
      last.keeps = false := by
  obtain ⟨first, rest, hfirst, hrest, rfl⟩ := List.forall₂_cons_left_iff.mp h
  obtain ⟨kept, last, rfl, hlast, hkept⟩ := carried_concat hrest
  refine ⟨first, kept, last, rfl, ⟨hfirst.1, hfirst.isInit rfl⟩, fun q hq => ?_, hlast.1,
    hlast.close⟩
  obtain ⟨e, he, hcarries⟩ := hkept q hq
  exact hcarries.keeps (hrequests e he).1 (hplain e he).1 (hplain e he).2

/-- Every package of a conversation comes to a session that is open, if it has to be. -/
theorem carried_answered {session : Nat} {sent : List Sent} (htalk : Talk session sent)
    (hplain : Plain sent) {before after : List BackendTest.Package}
    (h : List.Forall₂ Sent.Carries sent (before ++ p :: after)) :
    p.isInit = true ∨ p.request = none ∨ BackendTest.Open before session := by
  cases htalk with
  | silent =>
    have hlength := h.length_eq
    rw [List.length_append, List.length_cons] at hlength
    cases hlength
  | refused route vhosts =>
    obtain ⟨first, rest, hfirst, hrest, hcons⟩ := List.forall₂_cons_left_iff.mp h
    cases hrest
    cases before with
    | nil =>
      cases hcons
      exact .inl (hfirst.isInit rfl).1
    | cons q before =>
      have hlength := congrArg List.length hcons
      simp only [List.length_append, List.length_cons, List.length_nil] at hlength
      omega
  | closed route vhosts requests hrequests =>
    have hplain' : Plain requests := fun e he =>
      hplain e (List.mem_cons_of_mem _ (List.mem_append_left _ he))
    obtain ⟨first, kept, last, hcons, hfirst, hkept, -, hnone, -⟩ :=
      carried_closed hplain' hrequests h
    cases before with
    | nil =>
      cases hcons
      exact .inl hfirst.2.1
    | cons q before =>
      rw [List.cons_append] at hcons
      obtain ⟨rfl, hrest⟩ := List.cons.inj hcons
      rcases List.eq_nil_or_concat after with rfl | ⟨after, x, rfl⟩
      · obtain ⟨rfl, hlast⟩ := List.append_inj' hrest rfl
        cases hlast
        exact .inr (.inl hnone)
      · rw [List.concat_eq_append, ← List.cons_append, ← List.append_assoc] at hrest
        obtain ⟨rfl, -⟩ := List.append_inj' hrest rfl
        refine .inr (.inr ⟨[], q, before, rfl, hfirst.1, hfirst.2.1, hfirst.2.2, fun r hr _ => ?_⟩)
        exact hkept r (List.mem_append_left _ hr)

/-- Every session of a client that neither scans nor sends a close, and every order in which
`backend_test` gets its packages and those of others. -/
theorem keeps_to_sessions (h : Reach (step rep) init Any s) (hplain : Plain s.log)
    {history : List BackendTest.Package}
    (hhistory : ∀ session, talk (finish s).log session ≠ [] →
      List.Forall₂ Sent.Carries (talk (finish s).log session)
        (history.filter (·.session = session))) :
    (∀ before p after, history = before ++ p :: after →
      talk (finish s).log p.session ≠ [] →
        (BackendTest.process (BackendTest.run before) p).2 ≠ BackendTest.noInit) ∧
    ∀ b ∈ s.backendList, b.session ∉ (BackendTest.run history).sessions := by
  have hplain' : Plain (finish s).log := by
    intro e he
    rcases List.mem_append.mp he with he | he
    · obtain ⟨b, -, rfl⟩ := List.mem_map.mp (List.mem_reverse.mp he)
      refine ⟨fun session route databases hno => ?_, fun session route hno => ?_⟩
      · cases hno
      · cases hno
    · exact hplain e he
  have htalked (session : Nat) : Plain (talk (finish s).log session) := fun e he =>
    hplain' e (List.mem_of_mem_filter (List.mem_reverse.mp he))
  constructor
  · rintro before p after rfl hours hrefused
    have hcarried := hhistory p.session hours
    have hself : (p :: after).filter (·.session = p.session) =
        p :: after.filter (·.session = p.session) :=
      List.filter_cons_of_pos (decide_eq_true rfl)
    rw [List.filter_append, hself] at hcarried
    obtain ⟨hnot, hinit, hsome⟩ := (BackendTest.noInit_iff before p).mp hrefused
    rcases carried_answered (talk_of_reach h p.session) (htalked p.session) hcarried with
      hinit' | hnone | hopen
    · rw [hinit'] at hinit
      cases hinit
    · exact hsome hnone
    · exact hnot ((BackendTest.open_filter before p.session).mp hopen)
  · intro b hb hmem
    obtain ⟨requests, hroute, hsent⟩ := opened_of_reach h hb
    have hcarried := hhistory b.session (by rw [hsent]; exact List.cons_ne_nil _ _)
    have hrequests : Plain requests := fun e he => htalked b.session e (by
      rw [hsent]
      exact List.mem_cons_of_mem _ (List.mem_append_left _ he))
    rw [hsent] at hcarried
    obtain ⟨first, kept, last, hpackages, -, -, hsession, hnone, hkeeps⟩ :=
      carried_closed hrequests hroute hcarried
    rw [BackendTest.mem_sessions_iff, ← BackendTest.open_filter, hpackages, ← List.cons_append,
      BackendTest.open_concat] at hmem
    rcases hmem with ⟨-, hinit, -⟩ | ⟨-, hkept⟩
    · rw [BackendTest.Package.isInit, hnone] at hinit
      cases hinit
    · rw [hkept hsession] at hkeeps
      cases hkeeps

/-! ### One search, among packages of session 7 -/

def searchAndPresent : List Label := [searchFor "1", .present "1" false]

def searched : St := (run (step oneDatabase) emptySession searchAndPresent).getD emptySession

def someInit : BackendTest.Request := .init ⟨[0, 1], [0, 1, 2], 1024, 1024⟩

def someSearch : BackendTest.Request :=
  .search ⟨"default", true, none, 0, 1, 0, none, none, []⟩

def somePresent : BackendTest.Request := .present ⟨"default", 1, 2, none, none⟩

def packages : List BackendTest.Package :=
  [⟨7, false, some someInit⟩, ⟨1, false, some someInit⟩, ⟨7, false, some .other⟩,
    ⟨1, false, some someSearch⟩, ⟨1, false, some somePresent⟩, ⟨7, false, some someSearch⟩,
    ⟨1, true, none⟩]

theorem keeps_to_sessions_searched :
    (∀ before p after, packages = before ++ p :: after → p.session = 1 →
      (BackendTest.process (BackendTest.run before) p).2 ≠ BackendTest.noInit) ∧
    1 ∉ (BackendTest.run packages).sessions := by
  have hinit : init emptySession := ⟨rfl, rfl, rfl, rfl⟩
  have hrun : run (step oneDatabase) emptySession searchAndPresent = some searched := rfl
  have hreach : Reach (step oneDatabase) init Any searched :=
    (Reach.start hinit).of_run (runOk_any _ _) hrun
  have hlog : (finish searched).log = [.close 1 "", .present "1" 1 "" "default",
      .search "1" 1 "" "default" ["db"] true, .init 1 "" ["target"]] := rfl
  have hplain : Plain searched.log := by
    intro e he
    have hmem : e ∈ (finish searched).log := List.mem_append_right _ he
    rw [hlog] at hmem
    simp only [List.mem_cons, List.not_mem_nil, or_false] at hmem
    rcases hmem with rfl | rfl | rfl | rfl <;> simp
  have hsession (session : Nat) (hours : talk (finish searched).log session ≠ []) : session = 1 := by
    by_contra hne
    refine hours ?_
    rw [hlog]
    simp [talk, Sent.session, Ne.symm hne]
  have hhistory (session : Nat) (hours : talk (finish searched).log session ≠ []) :
      List.Forall₂ Sent.Carries (talk (finish searched).log session)
        (packages.filter (·.session = session)) := by
    cases hsession session hours
    exact .cons ⟨rfl, rfl⟩ (.cons ⟨rfl, rfl, rfl⟩ (.cons ⟨rfl, rfl, rfl⟩ (.cons ⟨rfl, rfl⟩ .nil)))
  obtain ⟨hanswered, hgone⟩ := keeps_to_sessions hreach hplain hhistory
  refine ⟨fun before p after hsplit hp => hanswered before p after hsplit ?_, ?_⟩
  · rw [hp]
    exact List.cons_ne_nil _ _
  · exact hgone ⟨1, ["db"], ["target"], "", false⟩ (List.mem_singleton_self _)

end VirtualDB
end Metaproxy
