import Metaproxy.Lib.Run
import Metaproxy.Lib.Table
import Metaproxy.OtherInfo
import Metaproxy.Util

/-!
# Z3950Client.Rep

`get_assoc`, `send_and_receive` and `release_assoc` of `filter_z3950_client.cpp`, as the steps that
packages take. `get_assoc` gives the lock up in `wait` and in `timed_wait`, so it is a step to the
first of these, and another one each time it wakes up. A package may wake up at any time.

An element of `m_clients` that an iterator refers to may be erased before the iterator is used, and
an Assoc deleted that a package works with. There is no step then.
-/

namespace Metaproxy
namespace Z3950Client

open Lib

inductive Gdu (OtherInfo : Type*) where
  | init (otherInfo : OtherInfo)
  /-- Another Z39.50 request. -/
  | other (encoding : List UInt8)
  | http (encoding : List UInt8)

structure Package (OtherInfo : Type*) where
  session : Nat
  /-- Of the copy of the session that the package has. -/
  closed : Bool
  /-- `get_max_sockets` of the origin. -/
  maxSockets : Int
  request : Option (Gdu OtherInfo)

inductive Response where
  /-- A close with `Z_Close_protocolError`. -/
  | close (diagnostic : String)
  | init (err : Bib1) (addinfo : String)
deriving DecidableEq, Repr

structure Assoc where
  host : String
  inUse : Bool
  destroyed : Bool
  queueLen : Int
deriving DecidableEq, Repr

/-- An element of `m_clients`. Assigning to it leaves the iterators to it valid. -/
structure Element where
  it : Nat
  assoc : Nat
deriving DecidableEq, Repr

/-- What `configure` sets. -/
structure Rep where
  maxSockets : Int
  defaultTarget : String
  forceTarget : String

/-- Where a package is. -/
inductive Pc where
  | waiting (it : Nat)
  | timed (target : String) (maxSockets : Int)
  /-- In `send_and_receive`. -/
  | inside (assoc : Nat)
  /-- Before `release_assoc`. -/
  | served (assoc : Nat)
deriving DecidableEq, Repr

structure Held (OtherInfo : Type*) where
  package : Package OtherInfo
  pc : Pc

structure State (OtherInfo : Type*) where
  clients : Table Nat Element
  /-- The Assocs that are not deleted, by address. -/
  assocs : Table Nat Assoc
  /-- The packages in `process`. -/
  packages : Table Nat (Held OtherInfo)
  /-- The session of every Assoc ever made, whose place here is its address. -/
  madeFor : List Nat
  /-- What was deleted, as it was then. -/
  deleted : List Assoc

/-- How `get_assoc` ends or waits. -/
inductive Outcome where
  | assoc (assoc : Nat)
  | wait (it : Nat)
  | timedWait (target : String) (maxSockets : Int)
  /-- The package goes to the next filter. -/
  | move
  /-- The session is closed. -/
  | refuse (response : Response)
deriving DecidableEq, Repr

variable {OtherInfo : Type*}

def Rep.maxSocketsOf (rep : Rep) (package : Package OtherInfo) : Int :=
  if package.maxSockets = 0 then rep.maxSockets else package.maxSockets

/-- The target of an init, and what is left of its `otherInfo`. -/
def Rep.target (rep : Rep) (yaz : YazOi OtherInfo) (otherInfo : OtherInfo) :
    Except Response String × OtherInfo :=
  if rep.forceTarget ≠ "" then (.ok rep.forceTarget, otherInfo)
  else
    match yaz.removeVhostOtherinfo otherInfo with
    | ([vhost], rest) => (.ok vhost, rest)
    | ([], rest) =>
      if rep.defaultTarget = "" then
        (.error (.init .initNegotiationOptionRequired "z3950_client: No vhost given"), rest)
      else (.ok rep.defaultTarget, rest)
    | (_, rest) =>
      (.error (.init .combiOfSpecifiedDatabasesUnsupp
        "z3950_client: Can not cope with multiple vhosts"), rest)

namespace State

variable (s : State OtherInfo)

/-- `m_clients.find`, and what the element points to. -/
def find (session : Nat) : Option (Element × Assoc) :=
  (s.clients.lookup session).bind fun e => (s.assocs.lookup e.assoc).map fun as => (e, as)

/-- Does the Assoc of an element meet the condition? -/
def points (q : Assoc → Bool) (e : Element) : Bool :=
  (s.assocs.lookup e.assoc).any q

/-- The elements of a target. -/
def number (target : String) : Nat :=
  s.clients.count (s.points fun as => as.host = target)

def noNotInUse (target : String) : Nat :=
  s.clients.count (s.points fun as => as.host = target && !as.inUse)

def setAssoc (assoc : Nat) (as : Assoc) : State OtherInfo :=
  { s with assocs := s.assocs.insert assoc as }

def setPackage (p : Nat) (h : Held OtherInfo) : State OtherInfo :=
  { s with packages := s.packages.insert p h }

/-- The package leaves `process`. -/
def drop (p : Nat) : State OtherInfo :=
  { s with packages := s.packages.erase p }

/-- `m_clients[package.session()] = as` for a new Assoc. -/
def newAssoc (session : Nat) (target : String) : State OtherInfo :=
  let it := ((s.clients.lookup session).map Element.it).getD s.madeFor.length
  { s with
    clients := s.clients.insert session ⟨it, s.madeFor.length⟩
    assocs := s.assocs.insert s.madeFor.length ⟨target, true, false, 1⟩
    madeFor := s.madeFor ++ [session] }

def deleteAssoc (session assoc : Nat) (as : Assoc) : State OtherInfo :=
  { s with
    clients := s.clients.erase session
    assocs := s.assocs.erase assoc
    deleted := s.deleted ++ [as] }

/-- Is there room for one more connection? -/
def Room (target : String) (maxSockets : Int) : Prop :=
  maxSockets = 0 ∨ (s.number target : Int) < maxSockets

instance (target : String) (maxSockets : Int) : Decidable (s.Room target maxSockets) :=
  inferInstanceAs (Decidable (_ ∨ _))

/-- A round of the loop for a session with an element. -/
def takeAssoc (e : Element) (as : Assoc) : State OtherInfo × Outcome :=
  if as.inUse then (s.setAssoc e.assoc as, .wait e.it)
  else (s.setAssoc e.assoc { as with inUse := true }, .assoc e.assoc)

/-- A round of the loop over `max_sockets`, and the new Assoc after it. -/
def openAssoc (session : Nat) (target : String) (maxSockets : Int) : State OtherInfo × Outcome :=
  if s.Room target maxSockets then (s.newAssoc session target, .assoc s.madeFor.length)
  else if s.noNotInUse target = 0 then
    (s, .refuse (.init .temporarySystemError "z3950_client: max sessions"))
  else (s, .timedWait target maxSockets)

/-- `timed_wait` is over, in time or not. -/
def retryAssoc (session : Nat) (target : String) (maxSockets : Int) (inTime : Bool) :
    State OtherInfo × Outcome :=
  if inTime then s.openAssoc session target maxSockets
  else (s, .refuse (.init .temporarySystemError "z3950_client: max sessions"))

/-- `get_assoc` up to its first wait. -/
def getAssoc (yaz : YazOi OtherInfo) (rep : Rep) (package : Package OtherInfo) :
    Package OtherInfo × State OtherInfo × Outcome :=
  match s.find package.session with
  | some (e, as) => (package, s.takeAssoc e { as with queueLen := as.queueLen + 1 })
  | none =>
    match package.request with
    | some (.init otherInfo) =>
      match rep.target yaz otherInfo with
      | (.ok target, rest) =>
        ({ package with request := some (.init rest) },
          s.openAssoc package.session target (rep.maxSocketsOf package))
      | (.error response, rest) =>
        ({ package with request := some (.init rest) }, s, .refuse response)
    | some (.other _) => (package, s, .refuse (.close "First PDU was not an Initialize Request"))
    | some (.http _) => (package, s, .move)
    | none => (package, s, .move)

def releaseAssoc (package : Package OtherInfo) : State OtherInfo :=
  match s.find package.session with
  | none => s
  | some (e, as) =>
    let released := { as with inUse := false, queueLen := as.queueLen - 1 }
    if package.closed then
      let destroyed := { released with destroyed := true }
      if destroyed.queueLen = 0 then s.deleteAssoc package.session e.assoc destroyed
      else s.setAssoc e.assoc destroyed
    else s.setAssoc e.assoc released

/-- The package after a part of `get_assoc`. -/
def settle (p : Nat) (package : Package OtherInfo) : State OtherInfo × Outcome → State OtherInfo
  | (s, .assoc assoc) => s.setPackage p ⟨package, .inside assoc⟩
  | (s, .wait it) => s.setPackage p ⟨package, .waiting it⟩
  | (s, .timedWait target maxSockets) => s.setPackage p ⟨package, .timed target maxSockets⟩
  | (s, .move) => s.drop p
  | (s, .refuse _) => s.drop p

end State

/-- `send_and_receive`. When the connection fails or times out, the session is closed. -/
def Package.sendAndReceive (package : Package OtherInfo) (as : Assoc) (aborted : Bool) :
    Package OtherInfo :=
  if as.destroyed then package
  else
    match package.request with
    | some (.init _) => { package with closed := package.closed || aborted }
    | some (.other _) => { package with closed := package.closed || aborted }
    | some (.http _) => package
    | none => package

inductive Label (OtherInfo : Type*) where
  | arrive (p : Nat) (package : Package OtherInfo)
  | wake (p : Nat)
  | timedWake (p : Nat) (inTime : Bool)
  | sendAndReceive (p : Nat) (aborted : Bool)
  | release (p : Nat)

def step (yaz : YazOi OtherInfo) (rep : Rep) (s : State OtherInfo) :
    Label OtherInfo → Option (State OtherInfo)
  | .arrive p package =>
    match s.packages.lookup p with
    | some _ => none
    | none =>
      let got := s.getAssoc yaz rep package
      some (State.settle p got.1 got.2)
  | .wake p =>
    match s.packages.lookup p with
    | some ⟨package, .waiting it⟩ =>
      match s.find package.session with
      | some (e, as) =>
        if e.it = it then some (State.settle p package (s.takeAssoc e as)) else none
      | none => none
    | _ => none
  | .timedWake p inTime =>
    match s.packages.lookup p with
    | some ⟨package, .timed target maxSockets⟩ =>
      some (State.settle p package (s.retryAssoc package.session target maxSockets inTime))
    | _ => none
  | .sendAndReceive p aborted =>
    match s.packages.lookup p with
    | some ⟨package, .inside assoc⟩ =>
      (s.assocs.lookup assoc).map fun as =>
        s.setPackage p ⟨package.sendAndReceive as aborted, .served assoc⟩
    | _ => none
  | .release p =>
    match s.packages.lookup p with
    | some ⟨package, .served _⟩ => some ((s.releaseAssoc package).drop p)
    | _ => none

def State.start : State OtherInfo := ⟨∅, ∅, ∅, [], []⟩

def init (s : State OtherInfo) : Prop := s = State.start

theorem init_start : init (State.start : State OtherInfo) := rfl

/-- A package that comes waits for the Assoc of its session or takes it, leaves, or goes for a new
one. -/
theorem State.settle_getAssoc (yaz : YazOi OtherInfo) (rep : Rep) (s : State OtherInfo) (p : Nat)
    (package : Package OtherInfo) {s' : State OtherInfo}
    (h : State.settle p (s.getAssoc yaz rep package).1 (s.getAssoc yaz rep package).2 = s') :
    (∃ e as, s.find package.session = some (e, as) ∧
      s' = State.settle p package (s.takeAssoc e { as with queueLen := as.queueLen + 1 })) ∨
    s.find package.session = none ∧ (s' = s.drop p ∨
      ∃ package' target, package'.session = package.session ∧
        s' = State.settle p package'
          (s.openAssoc package.session target (rep.maxSocketsOf package))) := by
  subst h
  unfold getAssoc
  cases hfind : s.find package.session with
  | some found =>
    obtain ⟨e, as⟩ := found
    exact .inl ⟨e, as, rfl, rfl⟩
  | none =>
    refine .inr ⟨rfl, ?_⟩
    cases package.request with
    | none => exact .inl rfl
    | some gdu =>
      cases gdu with
      | other encoding => exact .inl rfl
      | http encoding => exact .inl rfl
      | init otherInfo =>
        cases htarget : rep.target yaz otherInfo with
        | mk result rest =>
          simp only [htarget]
          cases result with
          | error response => exact .inl rfl
          | ok target =>
            exact .inr ⟨{ package with request := some (.init rest) }, target, rfl, rfl⟩

end Z3950Client
end Metaproxy
