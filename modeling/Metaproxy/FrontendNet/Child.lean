import Metaproxy.Clients.Rep
import Metaproxy.Origin
import Metaproxy.ThreadPool.Messages
import Metaproxy.Util

/-!
# FrontendNet.Child

`filter_frontend_net.cpp`: a connection (`ZAssocChild`) makes a package of each request and puts it
in the thread pool; the event loop sends the response when the pool delivers the package.

One thread runs the event loop. While it waits in `put` it does nothing else. The workers go on at
any time. A package is a number, in the order in which packages are made; a connection is known by
the id of its session, of which its packages have copies (`m_assoc_child`). What the filters answer,
how many HTTP requests the peer made of late and which events the socket has come with the label.
`close` is yazpp's; a `failNotify` it leads to is a step of its own. The log, newest first, is not
in the source.
-/

namespace Metaproxy
namespace FrontendNet

open Lib
open Clients (Session SessionId)
open ThreadPool (Config Observer)

abbrev PackageId := Nat

/-- The APDU that is made here, and all others. -/
inductive Apdu (ζ : Type*) where
  | closeSystemProblem (diagnostic : String)
  | apdu (z : ζ)
deriving DecidableEq, Repr

structure HttpRequest where
  path : List Char
  /-- `X-Forwarded-For`. -/
  forwardedFor : Option (List Char)
deriving DecidableEq, Repr

inductive Gdu (ζ : Type*) where
  | z3950 (apdu : Apdu ζ)
  | httpRequest (hreq : HttpRequest)
  | httpResponse (code : Nat)
deriving DecidableEq, Repr

structure IpPattern where
  pattern : List Char
  value : Int

/-- What is configured. -/
structure Rep where
  statReq : List Char
  httpReqMax : List IpPattern

structure ZAssocChild where
  noRequests : Int
  session : Session
  origin : Origin

structure Package (ζ : Type*) where
  session : Session
  origin : Origin
  request : Option (Gdu ζ)
  response : Option (Gdu ζ)

inductive Event (ζ : Type*) where
  | received (c : SessionId) (p : PackageId)
  /-- A worker has put the package in the output queue. -/
  | finished (c : SessionId) (p : PackageId)
  /-- `result` has sent the answer to the package. -/
  | sent (c : SessionId) (p : PackageId) (gdu : Gdu ζ)
  /-- `recv_GDU` has. -/
  | sentAtOnce (c : SessionId) (p : PackageId) (gdu : Gdu ζ)
  /-- `handle`, `cleanup` or `result` of the package has used `m_assoc_child`. -/
  | used (p : PackageId) (alive : Bool)
  /-- With so many of its packages in the pool. -/
  | deleted (c : SessionId) (outstanding : Nat)
  | closed (c : SessionId) (outstanding : Nat)
deriving DecidableEq, Repr

structure St (ζ : Type*) where
  pool : Observer PackageId
  children : Table SessionId ZAssocChild
  packages : PackageId → Package ζ
  /-- How many packages have been made. -/
  made : Nat
  /-- `m_global_id`. -/
  globalId : SessionId
  log : List (Event ζ)

inductive Label (ζ : Type*) where
  | connect (address : List Char)
  | recvGDU (c : SessionId) (gdu : Option (Gdu ζ)) (conSz : Int)
  | failNotify (c : SessionId)
  | timeoutNotify (c : SessionId)
  | retryPut
  | socketNotify
  | drain
  | worker (w : Nat) (response : Option (Gdu ζ)) (closed : Bool)

variable {ζ : Type*}

namespace St

def isOf (s : St ζ) (c : SessionId) (p : PackageId) : Bool := (s.packages p).session.id = c

/-- How many packages of the connection are in the pool or about to be put. -/
def outstanding (s : St ζ) (c : SessionId) : Nat := s.pool.pending (s.isOf c)

def alive (s : St ζ) (c : SessionId) : Bool := (s.children.lookup c).isSome

def record (s : St ζ) (e : Event ζ) : St ζ := { s with log := e :: s.log }

/-! ### `ThreadPoolPackage` -/

/-- The objects of the connection and the package are there before they are put. -/
def put (cfg : Config) (s : St ζ) (p : PackageId) : St ζ := { s with pool := s.pool.put cfg p }

def newPackage (s : St ζ) (pkg : Package ζ) : St ζ :=
  { s with packages := Function.update s.packages s.made pkg, made := s.made + 1 }

def setChild (s : St ζ) (c : SessionId) (child : ZAssocChild) : St ζ :=
  { s with children := s.children.insert c child }

/-- `delete this`. -/
def deleteChild (s : St ζ) (c : SessionId) : St ζ :=
  { s with children := s.children.erase c }.record (.deleted c (s.outstanding c))

end St

/-- What `result` sends for a package without a response whose session is open. -/
def unhandled : Gdu ζ → Option (Gdu ζ)
  | .z3950 _ => some (.z3950 (.closeSystemProblem "unhandled Z39.50 request"))
  | .httpRequest _ => some (.httpResponse 500)
  | .httpResponse _ => none

/-- What is sent for the package, and its session afterwards. -/
def Package.answer (pkg : Package ζ) : Option (Gdu ζ) × Session :=
  match pkg.response with
  | some gdu => (some gdu, pkg.session)
  | none =>
    if pkg.session.isClosed then (none, pkg.session)
    else (pkg.request.bind unhandled, { pkg.session with isClosed := true })

/-- The event loop has taken `p` from the output queue. -/
def result (s : St ζ) (p : PackageId) : St ζ :=
  let c := (s.packages p).session.id
  match s.children.lookup c with
  | none => s.record (.used p false)
  | some child =>
    let (gdu, session) := (s.packages p).answer
    let noRequests := child.noRequests - 1
    let s := (s.setChild c { child with noRequests }).record (.used p true)
    let s := gdu.elim s fun gdu => s.record (.sent c p gdu)
    if noRequests = 0 ∧ session.isClosed then s.record (.closed c (s.outstanding c)) else s

/-- `cleanup` of the queued packages of the connection, each of which counts itself out. -/
def cleanup (s : St ζ) (c : SessionId) (child : ZAssocChild) : St ζ :=
  let removed := s.pool.input.filter (s.isOf c)
  let s := s.setChild c { child with noRequests := child.noRequests - removed.length }
  { s with
    pool := s.pool.cleanup (s.isOf c)
    log := (removed.map fun p => .used p true).reverse ++ s.log }

/-- A worker has the package: `move` through the filters, on the route of the connection's port. -/
def handle (s : St ζ) (p : PackageId) (response : Option (Gdu ζ)) (closed : Bool) : St ζ :=
  let pkg := s.packages p
  { s with
    packages := Function.update s.packages p
      { pkg with
        session := { pkg.session with isClosed := pkg.session.isClosed || closed }
        response }
    log := .used p (s.alive pkg.session.id) :: s.log }

/-- One step of the thread `w`. -/
def work (s : St ζ) (w : Nat) (response : Option (Gdu ζ)) (closed : Bool) : Option (St ζ) :=
  (s.pool.work w).map fun pool =>
    match s.pool.workers[w]? with
    | some (.handling p) => { handle s p response closed with pool }
    | some (.handled p) => { s.record (.finished (s.packages p).session.id p) with pool }
    | _ => { s with pool }

/-! ### `ZAssocChild` -/

section

variable (matchGlob : List Char → List Char → Bool)

/-- Whether `http-req-max` refuses a request: the first pattern that matches decides. -/
def refused (peername : List Char) (conSz : Int) : List IpPattern → Bool
  | [] => false
  | it :: rest =>
    if Util.matchIp matchGlob it.pattern peername then !(conSz < it.value)
    else refused peername conSz rest

def requestOrigin (child : ZAssocChild) : Option (Gdu ζ) → Origin
  | some (.httpRequest hreq) =>
    match hreq.forwardedFor with
    | some f => child.origin.setTcpipAddress f child.session.id
    | none => child.origin
  | _ => child.origin

/-- The answer `recv_GDU` gives itself, which ends the connection: the report, or the refusal. -/
def answerAtOnce (rep : Rep) (child : ZAssocChild) (gdu : Option (Gdu ζ)) (conSz : Int) :
    Option (Gdu ζ) :=
  match gdu with
  | some (.httpRequest hreq) =>
    if rep.statReq ≠ [] ∧ hreq.path = rep.statReq then some (.httpResponse 200)
    else if refused matchGlob (requestOrigin child gdu).getAddress conSz rep.httpReqMax then
      some (.httpResponse 500)
    else none
  | _ => none

def recvGDU (cfg : Config) (rep : Rep) (s : St ζ) (c : SessionId) (child : ZAssocChild)
    (gdu : Option (Gdu ζ)) (conSz : Int) : St ζ :=
  let p := s.made
  let s := (s.setChild c { child with noRequests := child.noRequests + 1 }).newPackage
    ⟨child.session, requestOrigin child gdu, gdu, none⟩
  let s := s.record (.received c p)
  match answerAtOnce matchGlob rep child gdu conSz with
  | some answer => (s.record (.sentAtOnce c p answer)).deleteChild c
  | none => s.put cfg p

end

/-- The session is closed, and a package without a request tells the filters. -/
def putClose (cfg : Config) (s : St ζ) (c : SessionId) (child : ZAssocChild) : St ζ :=
  let p := s.made
  let session := { child.session with isClosed := true }
  let s := s.newPackage ⟨session, child.origin, none, none⟩
  (cleanup s c { child with noRequests := child.noRequests + 1, session }).put cfg p

def failNotify (cfg : Config) (s : St ζ) (c : SessionId) (child : ZAssocChild) : St ζ :=
  if child.session.isClosed then
    if child.noRequests = 0 then s.deleteChild c else s
  else putClose cfg s c child

def timeoutNotify (cfg : Config) (s : St ζ) (c : SessionId) (child : ZAssocChild) : St ζ :=
  failNotify cfg s c child

/-- A connection that `ZAssocServer::sessionNotify` accepts; the address is the peer and the port. -/
def connect (s : St ζ) (address : List Char) : St ζ :=
  let id := s.globalId + 1
  { s with globalId := id }.setChild id
    ⟨0, ⟨id, false⟩, Origin.new.setTcpipAddress address id⟩

/-! ### The event loop and the workers -/

/-- The event loop is not in `put`. -/
def St.isFree (s : St ζ) : Bool := s.pool.blocked.isEmpty

def step (matchGlob : List Char → List Char → Bool) (cfg : Config) (rep : Rep) (s : St ζ) :
    Label ζ → Option (St ζ)
  | .connect address => if s.isFree then some (connect s address) else none
  | .recvGDU c gdu conSz =>
    if s.isFree then
      (s.children.lookup c).map fun child => recvGDU matchGlob cfg rep s c child gdu conSz
    else none
  | .failNotify c =>
    if s.isFree then (s.children.lookup c).map fun child => failNotify cfg s c child else none
  | .timeoutNotify c =>
    if s.isFree then (s.children.lookup c).map fun child => timeoutNotify cfg s c child else none
  | .retryPut => (s.pool.retryPut 0).map fun pool => { s with pool }
  | .socketNotify =>
    if s.isFree then s.pool.socketNotify.map fun pool => { s with pool } else none
  | .drain =>
    if s.isFree then
      s.pool.drain.map fun pool =>
        match s.pool.output with
        | [] => { s with pool }
        | p :: _ => result { s with pool } p
    else none
  | .worker w response closed => work s w response closed

/-- A label with what its step does: a connection is accepted, a request or an event of a connection
is handled, the pool goes on by itself, a package is delivered, or a worker goes on. -/
inductive Happens (matchGlob : List Char → List Char → Bool) (cfg : Config) (rep : Rep) (s : St ζ) :
    Label ζ → St ζ → Prop where
  | connect (address : List Char) :
      Happens matchGlob cfg rep s (.connect address) (connect s address)
  | recvGDU (c : SessionId) (child : ZAssocChild) (gdu : Option (Gdu ζ)) (conSz : Int) :
      s.children.lookup c = some child →
      Happens matchGlob cfg rep s (.recvGDU c gdu conSz)
        (recvGDU matchGlob cfg rep s c child gdu conSz)
  | failNotify (c : SessionId) (child : ZAssocChild) (a : Label ζ) :
      s.children.lookup c = some child →
      Happens matchGlob cfg rep s a (failNotify cfg s c child)
  | pool (a : Label ζ) (pool : Observer PackageId) :
      pool.output = s.pool.output → (∀ q, pool.pending q = s.pool.pending q) →
      Happens matchGlob cfg rep s a { s with pool }
  | deliver (a : Label ζ) (p : PackageId) (rest : List PackageId) (pool : Observer PackageId) :
      s.pool.output = p :: rest → s.pool.drain = some pool →
      Happens matchGlob cfg rep s a (result { s with pool } p)
  | work (w : Nat) (response : Option (Gdu ζ)) (closed : Bool) (s' : St ζ) :
      work s w response closed = some s' →
      Happens matchGlob cfg rep s (.worker w response closed) s'

theorem step_happens {matchGlob : List Char → List Char → Bool} {cfg : Config} {rep : Rep}
    {s s' : St ζ} {a : Label ζ} (hs : step matchGlob cfg rep s a = some s') :
    Happens matchGlob cfg rep s a s' := by
  cases a with
  | connect address =>
    simp only [step] at hs
    split at hs
    · cases hs
      exact .connect address
    · cases hs
  | recvGDU c gdu conSz =>
    simp only [step] at hs
    split at hs
    · obtain ⟨child, hc, rfl⟩ := Option.map_eq_some_iff.mp hs
      exact .recvGDU c child gdu conSz hc
    · cases hs
  | failNotify c =>
    simp only [step] at hs
    split at hs
    · obtain ⟨child, hc, rfl⟩ := Option.map_eq_some_iff.mp hs
      exact .failNotify c child _ hc
    · cases hs
  | timeoutNotify c =>
    simp only [step] at hs
    split at hs
    · obtain ⟨child, hc, rfl⟩ := Option.map_eq_some_iff.mp hs
      exact .failNotify c child _ hc
    · cases hs
  | retryPut =>
    obtain ⟨pool, hpool, rfl⟩ := Option.map_eq_some_iff.mp hs
    exact .pool _ pool (ThreadPool.output_retryPut hpool) fun q => ThreadPool.pending_retryPut hpool
  | socketNotify =>
    simp only [step] at hs
    split at hs
    · obtain ⟨pool, hpool, rfl⟩ := Option.map_eq_some_iff.mp hs
      exact .pool _ pool (ThreadPool.output_socketNotify hpool) fun q =>
        ThreadPool.pending_socketNotify hpool
    · cases hs
  | drain =>
    simp only [step] at hs
    split at hs
    · obtain ⟨pool, hpool, heq⟩ := Option.map_eq_some_iff.mp hs
      split at heq
      · -- there is nothing in the output queue
        rename_i hout
        cases heq
        have hdrop := ThreadPool.output_drain hpool
        rw [hout] at hdrop
        refine .pool _ pool (hdrop.trans hout.symm) fun q => ?_
        have hpending := ThreadPool.pending_drain (q := q) hpool
        rw [hout] at hpending
        exact hpending
      · rename_i p rest hout
        cases heq
        exact .deliver _ p rest pool hout hpool
    · cases hs
  | worker w response closed => exact .work w response closed s' hs

def init (cfg : Config) (s : St ζ) : Prop :=
  s.pool = .new cfg ∧ s.children = ∅ ∧ s.log = []

/-- Before the first connection. -/
def St.start (cfg : Config) : St ζ where
  pool := .new cfg
  children := ∅
  packages _ := ⟨⟨0, false⟩, .new, none, none⟩
  made := 0
  globalId := 0
  log := []

theorem init_start (cfg : Config) : init cfg (St.start cfg : St ζ) := ⟨rfl, rfl, rfl⟩

end FrontendNet
end Metaproxy
