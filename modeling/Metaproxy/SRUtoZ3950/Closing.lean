import Metaproxy.Lib.Run
import Metaproxy.SRUtoZ3950.Impl

/-!
# SRUtoZ3950.Closing

The requests of one HTTP connection share a session, so the Z39.50 session that one of them opens
has to be closed before the next. `sru` does so for a session whose init was accepted. When the
init is refused it just returns, and what is open behind stays open (`closes_iff`).

A run is the requests of the connection in the order in which `get_frontend` lets them in.
-/

namespace Metaproxy
namespace SRUtoZ3950

open Lib

/-! ## The session downstream -/

def Sent.isInit : Sent → Bool
  | .init .. => true
  | _ => false

/-- A search or a present. -/
def Sent.isRequest : Sent → Bool
  | .search .. => true
  | .present _ => true
  | _ => false

/-- Whether a session is open downstream when a package has come back. -/
def openAfter (isOpen : Bool) (f : Forwarded) : Bool :=
  match f.sent with
  | .init .. => !f.closed
  | .close => false
  | _ => isOpen && !f.closed

/-- No init is forwarded while a session is open. -/
def InitsApart : Bool → List Forwarded → Prop
  | _, [] => True
  | isOpen, f :: fs =>
    (f.sent.isInit = true → isOpen = false) ∧ InitsApart (openAfter isOpen f) fs

/-- If an init was forwarded and downstream has not closed the session, then the last of all is the
package that closes it. -/
def Closes (fs : List Forwarded) : Prop :=
  (∃ f ∈ fs, f.sent.isInit = true) → (∀ f ∈ fs, f.sent ≠ .close → f.closed = false) →
    fs.getLast? = some closing

theorem initsApart_append {isOpen : Bool} {fs gs : List Forwarded} :
    InitsApart isOpen (fs ++ gs) ↔
      InitsApart isOpen fs ∧ InitsApart (fs.foldl openAfter isOpen) gs := by
  induction fs generalizing isOpen with
  | nil => simp [InitsApart]
  | cons f fs ih =>
    rw [List.cons_append, InitsApart, InitsApart, ih, and_assoc]
    rfl

theorem initsApart_requests {isOpen : Bool} {fs : List Forwarded}
    (h : ∀ f ∈ fs, f.sent.isInit = false) : InitsApart isOpen fs := by
  induction fs generalizing isOpen with
  | nil => trivial
  | cons f fs ih =>
    refine ⟨fun hinit => ?_, ih fun g hg => h g (List.mem_cons_of_mem _ hg)⟩
    rw [h f List.mem_cons_self] at hinit
    cases hinit

/-! ## The packages of a request -/

/-- The request is a `searchRetrieve` with a query. -/
def NeedsSession (request : Option Request) : Prop :=
  ∃ r req query, request = some r ∧ r.pdu = .searchRetrieve req ∧ req.query = some query

def Answer.accepted (a : Answer) : Bool :=
  match a.response with
  | some (.init result _) => result
  | _ => false

theorem initAnswered_eq_ok {a : Answer} : initAnswered a = .ok () ↔ a.accepted = true := by
  unfold initAnswered Answer.accepted
  cases a.response with
  | none => simp
  | some gdu =>
    cases gdu with
    | init result diagnostics => cases result <;> cases diagnostics <;> simp
    | _ => simp

theorem presentLoop_forwarded {req : SearchRetrieveRequest} {start maxRecs : Int}
    {answers : List Answer} {num : Int} {l : Loop}
    (h : presentLoop req start maxRecs answers num = some l) :
    ∀ f ∈ l.forwarded, f.sent.isRequest = true := by
  induction answers generalizing num l with
  | nil =>
    rw [presentLoop] at h
    split at h
    · cases h
    · cases h
      simp
  | cons a answers ih =>
    rw [presentLoop] at h
    split at h
    · simp only at h
      split at h
      · split at h
        · cases h
          simp [Sent.isRequest]
        · obtain ⟨l', hl', rfl⟩ := Option.map_eq_some_iff.mp h
          intro f hf
          rcases List.mem_cons.mp hf with rfl | hf
          · rfl
          · exact ih hl' f hf
        · cases h
          simp [Sent.isRequest]
      · cases h
        simp [Sent.isRequest]
    · cases h
      simp

variable {impl : Impl} {r : Request} {req : SearchRetrieveRequest} {query : String}
  {request : Option Request} {soap : Bool} {answers : List Answer} {fs : List Forwarded}

theorem presentRecords_forwarded {res res' : SearchRetrieveResponse} {numberOfRecords : Int}
    (h : presentRecords impl req res numberOfRecords answers = some (fs, res')) :
    ∀ f ∈ fs, f.sent.isRequest = true := by
  unfold presentRecords at h
  simp only at h
  split at h
  · cases h
    simp
  · split at h
    · cases h
      simp
    · obtain ⟨l, hl, heq⟩ := Option.map_eq_some_iff.mp h
      cases heq
      exact presentLoop_forwarded hl

theorem searchAndPresent_forwarded {res : SearchRetrieveResponse}
    (h : searchAndPresent impl r req query answers = some (fs, res)) :
    ∀ f ∈ fs, f.sent.isRequest = true := by
  unfold searchAndPresent at h
  split at h
  · cases h
    simp
  · cases answers with
    | nil => cases h
    | cons a answers =>
      simp only at h
      split at h
      · cases h
        simp [Sent.isRequest]
      · split at h
        · cases h
          simp [Sent.isRequest]
        · obtain ⟨p, hp, heq⟩ := Option.map_eq_some_iff.mp h
          cases heq
          intro f hf
          rcases List.mem_cons.mp hf with rfl | hf
          · rfl
          · exact presentRecords_forwarded hp f hf

/-- What a request forwards. -/
inductive Forwards (impl : Impl) (request : Option Request) :
    List Answer → List Forwarded → Prop where
  | nothing {answers : List Answer} : ¬ NeedsSession request → Forwards impl request answers []
  | refused {a : Answer} {answers : List Answer} (r : Request) :
      NeedsSession request → a.accepted = false →
      Forwards impl request (a :: answers) [⟨initSent impl r, a.closed⟩]
  | session {a : Answer} {answers : List Answer} (r : Request) (requests : List Forwarded) :
      NeedsSession request → a.accepted = true → (∀ f ∈ requests, f.sent.isRequest = true) →
      Forwards impl request (a :: answers)
        (⟨initSent impl r, a.closed⟩ :: requests ++ [closing])

theorem sru_forwards {res : Response} (h : sru impl soap request answers = some (fs, res)) :
    Forwards impl request answers fs := by
  cases request with
  | none =>
    cases h
    exact .nothing fun ⟨_, _, _, hr, _⟩ => nomatch hr
  | some r =>
    have hnone : (∀ req query, r.pdu = .searchRetrieve req → req.query ≠ some query) →
        ¬ NeedsSession (some r) := by
      rintro hno ⟨r', req, query, hr, hpdu, hquery⟩
      cases hr
      exact hno req query hpdu hquery
    rw [sru] at h
    split at h
    · rename_i hpdu
      cases h
      exact .nothing (hnone fun _ _ hreq => by rw [hpdu] at hreq; cases hreq)
    · rename_i req hpdu
      obtain ⟨p, hp, heq⟩ := Option.map_eq_some_iff.mp h
      cases heq
      unfold searchRetrieve at hp
      cases hquery : req.query with
      | none =>
        rw [hquery] at hp
        cases hp
        refine .nothing (hnone fun req' query hreq => ?_)
        rw [hpdu] at hreq
        cases hreq
        simp [hquery]
      | some query =>
        have hneeds : NeedsSession (some r) := ⟨r, req, query, rfl, hpdu, hquery⟩
        rw [hquery] at hp
        cases answers with
        | nil => cases hp
        | cons a answers =>
          simp only at hp
          split at hp
          · rename_i hrefused
            cases hp
            refine .refused r hneeds (Bool.eq_false_iff.mpr fun haccepted => ?_)
            rw [initAnswered_eq_ok.mpr haccepted] at hrefused
            cases hrefused
          · rename_i haccepted
            obtain ⟨q, hq, rfl⟩ := Option.map_eq_some_iff.mp hp
            exact .session r q.1 hneeds (initAnswered_eq_ok.mp haccepted)
              (searchAndPresent_forwarded hq)
    · rename_i hpdu
      cases h
      exact .nothing (hnone fun _ _ hreq => by rw [hpdu] at hreq; cases hreq)
    · rename_i hpdu
      cases h
      exact .nothing (hnone fun _ _ hreq => by rw [hpdu] at hreq; cases hreq)

/-- An init that the request forwards is accepted, or its package comes back closed. -/
def InitHeld (request : Option Request) (answers : List Answer) : Prop :=
  NeedsSession request → ∀ a ∈ answers.head?, a.accepted = true ∨ a.closed = true

theorem closes_iff {res : Response} (h : sru impl soap request answers = some (fs, res)) :
    Closes fs ↔ InitHeld request answers := by
  cases sru_forwards h with
  | nothing hno =>
    refine iff_of_true (fun hinit _ => ?_) fun hneeds => absurd hneeds hno
    obtain ⟨f, hf, -⟩ := hinit
    cases hf
  | @refused a answers r hneeds hrefused =>
    cases hclosed : a.closed with
    | true =>
      refine iff_of_true (fun _ hopen => ?_) fun _ b hb => ?_
      · have := hopen _ List.mem_cons_self (by simp [initSent])
        cases this
      · cases hb
        exact .inr hclosed
    | false =>
      refine iff_of_false (fun hcloses => ?_) fun hheld => ?_
      · have := hcloses ⟨_, List.mem_cons_self, rfl⟩ (by simp)
        cases this
      · rcases hheld hneeds a rfl with haccepted | haclosed
        · rw [hrefused] at haccepted
          cases haccepted
        · rw [hclosed] at haclosed
          cases haclosed
  | session r requests hneeds haccepted _ =>
    refine iff_of_true (fun _ _ => List.getLast?_concat) fun _ b hb => ?_
    cases hb
    exact .inl haccepted

theorem foldl_closing {isOpen : Bool} (fs : List Forwarded) :
    (fs ++ [closing]).foldl openAfter isOpen = false := by
  simp [closing, openAfter]

/-- A request that starts with no session open, and ends with none. -/
theorem forwards_apart (h : Forwards impl request answers fs) : InitsApart false fs := by
  cases h with
  | nothing _ => trivial
  | refused r _ _ => exact ⟨fun _ => rfl, trivial⟩
  | session r requests _ _ hrequests =>
    refine ⟨fun _ => rfl, initsApart_requests fun f hf => ?_⟩
    rcases List.mem_append.mp hf with hf | hf
    · have := hrequests f hf
      cases hs : f.sent <;> simp_all [Sent.isRequest, Sent.isInit]
    · cases List.mem_singleton.mp hf
      rfl

theorem forwards_closed (h : Forwards impl request answers fs) (hheld : InitHeld request answers) :
    fs.foldl openAfter false = false := by
  cases h with
  | nothing _ => rfl
  | @refused a _ r hneeds hrefused =>
    rcases hheld hneeds a rfl with haccepted | hclosed
    · rw [hrefused] at haccepted
      cases haccepted
    · simp [openAfter, initSent, hclosed]
  | session r requests _ _ _ => exact foldl_closing (_ :: requests)

/-! ## The requests of a connection -/

structure Label where
  soap : Bool
  request : Option Request
  answers : List Answer

/-- What each request has forwarded. -/
abbrev Connection := List (List Forwarded)

def step (impl : Impl) (c : Connection) (a : Label) : Option Connection :=
  (sru impl a.soap a.request a.answers).map fun p => c ++ [p.1]

def init (c : Connection) : Prop := c = []

/-- Every request closes what it opens; no init is forwarded while a session is open, and the next
request finds none. -/
structure Safe (c : Connection) : Prop where
  closes : ∀ fs ∈ c, Closes fs
  apart : InitsApart false c.flatten
  settled : c.flatten.foldl openAfter false = false

theorem safe_step {c c' : Connection} {a : Label} (h : Safe c) (hs : step impl c a = some c') :
    Safe c' ↔ InitHeld a.request a.answers := by
  obtain ⟨p, hp, rfl⟩ := Option.map_eq_some_iff.mp hs
  have hflatten : (c ++ [p.1]).flatten = c.flatten ++ p.1 := by simp
  refine ⟨fun hsafe => (closes_iff hp).mp (hsafe.closes _ (by simp)), fun hheld => ⟨?_, ?_, ?_⟩⟩
  · intro fs hfs
    rcases List.mem_append.mp hfs with hfs | hfs
    · exact h.closes fs hfs
    · cases List.mem_singleton.mp hfs
      exact (closes_iff hp).mpr hheld
  · rw [hflatten]
    refine initsApart_append.mpr ⟨h.apart, ?_⟩
    rw [h.settled]
    exact forwards_apart (sru_forwards hp)
  · rw [hflatten, List.foldl_append, h.settled]
    exact forwards_closed (sru_forwards hp) hheld

/-- In every run in which an init is accepted or closed downstream, each request closes its session
and no init is forwarded to one that is open; and from such a state a request leads to such a state
if and only if it keeps to that. -/
theorem requests_close_iff (impl : Impl) {c : Connection}
    (h : Reach (step impl) init (fun _ a => InitHeld a.request a.answers) c) :
    Safe c ∧ ∀ a c', step impl c a = some c' →
      (Safe c' ↔ InitHeld a.request a.answers) := by
  have hsafe : Safe c := by
    refine h.invariant (I := Safe) ?_ fun c a c' hi hok hs => (safe_step hi hs).mpr hok
    rintro c rfl
    exact ⟨by simp, trivial, rfl⟩
  exact ⟨hsafe, fun a c' hs => safe_step hsafe hs⟩

/-! ### A user is refused -/

def plain : Impl := ⟨0, fun _ => none, fun s => s, fun _ => none⟩

/-- `?query=a` of a user. -/
def search (username : String) : Request where
  username := some username
  password := none
  zurl := ""
  dbargs := ""
  peerName := none
  diagnostics := []
  pdu := .searchRetrieve
    ⟨some "a", "cql", none, none, none, none, none, none, false, none, none⟩

def accepts : Answer := ⟨false, some (.init true [])⟩
def refuses : Answer := ⟨false, some (.init false [])⟩
def finds (n : Int) : Answer := ⟨false, some (.search n none)⟩

theorem requests_close_iff_accepted : ∃ c : Connection, c.length = 2 ∧ Safe c := by
  have hreach : Reach (step plain) init (fun _ a => InitHeld a.request a.answers)
      ([] : Connection) := .start rfl
  have hheld : ∀ n, InitHeld (some (search "u")) [accepts, finds n] := by
    intro n _ a ha
    cases ha
    exact .inl rfl
  have h1 := hreach.next (e := ⟨false, some (search "u"), [accepts, finds 0]⟩) (hheld 0) rfl
  have h2 := h1.next (e := ⟨false, some (search "u"), [accepts, finds 3]⟩) (hheld 3) rfl
  exact ⟨_, rfl, (requests_close_iff plain h2).1⟩

/-- The init of the next user is forwarded while the session of a refused one is open. -/
theorem refused_stays_open :
    ∃ c, Reach (step plain) init Any c ∧ c.map List.length = [1, 3] ∧
      (∃ fs ∈ c, ¬ Closes fs) ∧ ¬ InitsApart false c.flatten := by
  have hreach : Reach (step plain) init Any ([] : Connection) := .start rfl
  have h1 := hreach.next (e := ⟨false, some (search "u"), [refuses]⟩) trivial rfl
  have h2 := h1.next (e := ⟨false, some (search "v"), [accepts, finds 0]⟩) trivial rfl
  refine ⟨_, h2, rfl, ⟨_, List.mem_cons_self, ?_⟩, ?_⟩
  · intro hcloses
    have := hcloses ⟨_, List.mem_cons_self, rfl⟩ (by simp [refuses])
    cases this
  · rintro ⟨-, hopen, -⟩
    exact nomatch hopen rfl

end SRUtoZ3950
end Metaproxy
