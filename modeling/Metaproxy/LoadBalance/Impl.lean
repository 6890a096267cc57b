import Mathlib.Algebra.Order.Ring.Nat
import Metaproxy.Lib.Run
import Metaproxy.Lib.Table

/-!
# LoadBalance.Impl

`LoadBalance::Impl` of `filter_load_balance.cpp`: the two maps, the functions that update them
under `m_mutex`, and `process` as a thread that takes one locked section, or one `move`, at a time.

A run starts any number of packages and lets their threads step in any order (`step`). What a
target answers, and whether it closes the session, comes with the label.
-/

namespace Metaproxy
namespace LoadBalance

open Lib

/-- `std::numeric_limits<unsigned int>::max()` -/
def uintMax : Nat := 2 ^ 32 - 1

structure TargetStat where
  sessions : Nat
  packages : Nat
  deads : Nat
deriving DecidableEq, Repr

/-- The sum is an `unsigned int`. -/
def TargetStat.cost (t : TargetStat) : Nat :=
  (t.sessions + t.packages + t.deads) % 2 ^ 32

structure Impl where
  targetStat : Table String TargetStat
  sessionTarget : Table Nat String

namespace Impl

def empty : Impl := ⟨∅, ∅⟩

/-- The empty string stands for a session without a target. -/
def findSessionTarget (m : Impl) (sessionId : Nat) : String :=
  (m.sessionTarget.lookup sessionId).getD ""

/-- The functions on the statistics of the target of a session all look like this: nothing happens
without a target, without an entry for it, or when the guard of the update fails. -/
def updateStat (m : Impl) (sessionId : Nat) (guard : TargetStat → Bool)
    (f : TargetStat → TargetStat) : Impl :=
  let target := m.findSessionTarget sessionId
  if target = "" then m
  else
    match m.targetStat.lookup target with
    | none => m
    | some stat =>
      if guard stat then { m with targetStat := m.targetStat.insert target (f stat) } else m

def addDead (m : Impl) (sessionId : Nat) : Impl :=
  m.updateStat sessionId (fun s => s.deads < uintMax) fun s => { s with deads := s.deads + 1 }

def addPackage (m : Impl) (sessionId : Nat) : Impl :=
  m.updateStat sessionId (fun s => s.packages < uintMax) fun s =>
    { s with packages := s.packages + 1 }

def removePackage (m : Impl) (sessionId : Nat) : Impl :=
  m.updateStat sessionId (fun s => 0 < s.packages) fun s => { s with packages := s.packages - 1 }

def addSession (m : Impl) (sessionId : Nat) (target : String) : Impl where
  sessionTarget :=
    match m.sessionTarget.lookup sessionId with
    | none => m.sessionTarget.insert sessionId target
    | some _ => m.sessionTarget
  targetStat :=
    match m.targetStat.lookup target with
    | none => m.targetStat.insert target ⟨1, 0, 0⟩
    | some stat =>
      if stat.sessions < uintMax then
        m.targetStat.insert target { stat with sessions := stat.sessions + 1 }
      else m.targetStat

/-- The entry of a target goes when its last session goes, but also, whatever the other sessions,
when the target was never marked dead. -/
def removeSession (m : Impl) (sessionId : Nat) : Impl :=
  match m.sessionTarget.lookup sessionId with
  | none => m
  | some target =>
    { sessionTarget := m.sessionTarget.erase sessionId
      targetStat :=
        match m.targetStat.lookup target with
        | none => m.targetStat
        | some stat =>
          let sessions := if 0 < stat.sessions then stat.sessions - 1 else stat.sessions
          if sessions = 0 ∨ stat.deads = 0 then m.targetStat.erase target
          else m.targetStat.insert target { stat with sessions := sessions } }

def cost (m : Impl) (target : String) : Nat :=
  if target = "" then 0
  else
    match m.targetStat.lookup target with
    | none => 0
    | some stat => stat.cost

/-- The scan of `vhosts` for the first of least cost: `i` is the index of the head, `best` the pick
so far and `costI` its cost. -/
def pickFrom (m : Impl) : List String → Nat → Option (Nat × String) → Nat → Option (Nat × String)
  | [], _, best, _ => best
  | vhost :: vhosts, i, best, costI =>
    if vhost ≠ "" ∧ m.cost vhost < costI then
      m.pickFrom vhosts (i + 1) (some (i, vhost)) (m.cost vhost)
    else m.pickFrom vhosts (i + 1) best costI

def pick (m : Impl) (vhosts : List String) : Option (Nat × String) :=
  m.pickFrom vhosts 0 none uintMax

end Impl

/-- What the request GDU of a package is, as far as `process` looks. -/
inductive Request where
  | init (vhosts : List String)
  | close
  | other
  | notZ3950
deriving DecidableEq, Repr

inductive Response where
  | close
  | other
  | notZ3950
deriving DecidableEq, Repr

/-- A package on its way in: its copy of the session (id and closed flag) and its request. -/
structure Package where
  sessionId : Nat
  isClosed : Bool
  request : Request
deriving DecidableEq, Repr

inductive Reply where
  | forwarded (r : Response)
  /-- An init response with `YAZ_BIB1_TEMPORARY_SYSTEM_ERROR` and this text. -/
  | temporarySystemError (addinfo : String)
deriving DecidableEq, Repr

/-- Where the thread of a package is in `process`. -/
inductive Pc where
  /-- About to lock `m_mutex` and weigh the vhosts not tried yet. -/
  | choose (p : Package) (vhosts : List String)
  /-- In `init_pkg.move()`. -/
  | initMove (p : Package) (target : String) (vhosts : List String)
  | addSession (p : Package) (target : String) (r : Response)
  | addPackage (p : Package) (isClosedFront : Bool)
  /-- In `package.move()`. -/
  | move (p : Package) (isClosedFront : Bool)
  | removePackage (p : Package) (r : Response) (isClosedFront isClosedBack : Bool)
  /-- About to lock for `add_dead` and `remove_session`. -/
  | finish (p : Package) (r : Response) (isClosedFront : Bool)
  | done (reply : Reply) (isClosed : Bool)
deriving DecidableEq, Repr

/-- `go` lets a thread take its next locked section; `moved` ends a `move`. -/
inductive Ev where
  | go
  | moved (closed : Bool) (r : Response)
deriving DecidableEq, Repr

def entry (p : Package) : Pc :=
  match p.request with
  | .init vhosts => .choose p vhosts
  | .close => .addPackage p true
  | .other => .addPackage p p.isClosed
  | .notZ3950 => .move p p.isClosed

/-- The test before the last locked section. -/
def closing (p : Package) (r : Response) (isClosedFront isClosedBack : Bool) : Pc :=
  if isClosedBack || isClosedFront then .finish p r isClosedFront
  else .done (.forwarded r) false

def stepThread (m : Impl) : Pc → Ev → Option (Impl × Pc)
  | .choose p vhosts, .go =>
    match m.pick vhosts with
    | none => some (m, .done (.temporarySystemError "load_balance: no available targets") true)
    | some (i, target) => some (m, .initMove p target (vhosts.eraseIdx i))
  | .initMove p target vhosts, .moved closed r =>
    if p.isClosed || closed then some (m, .choose p vhosts)
    else some (m, .addSession p target r)
  | .addSession p target r, .go =>
    some (m.addSession p.sessionId target, .done (.forwarded r) false)
  | .addPackage p isClosedFront, .go =>
    some (m.addPackage p.sessionId, .move p isClosedFront)
  | .move p isClosedFront, .moved closed r =>
    let isClosedBack := p.isClosed || closed
    match r with
    | .close => some (m, .removePackage p r isClosedFront true)
    | .other => some (m, .removePackage p r isClosedFront isClosedBack)
    | .notZ3950 => some (m, closing p r isClosedFront isClosedBack)
  | .removePackage p r isClosedFront isClosedBack, .go =>
    some (m.removePackage p.sessionId, closing p r isClosedFront isClosedBack)
  | .finish p r isClosedFront, .go =>
    let m := if isClosedFront then m else m.addDead p.sessionId
    some (m.removeSession p.sessionId, .done (.forwarded r) true)
  | _, _ => none

structure St where
  impl : Impl
  threads : List Pc

inductive Label where
  | start (p : Package)
  | thread (i : Nat) (e : Ev)
deriving DecidableEq, Repr

def init (s : St) : Prop := s = ⟨Impl.empty, []⟩

def step (s : St) : Label → Option St
  | .start p => some { s with threads := s.threads ++ [entry p] }
  | .thread i e =>
    match s.threads[i]? with
    | none => none
    | some pc =>
      match stepThread s.impl pc e with
      | none => none
      | some (m, pc') => some ⟨m, s.threads.set i pc'⟩

end LoadBalance
end Metaproxy
