import Mathlib.Logic.Function.Basic
import Metaproxy.Lib.Run
import Metaproxy.Lib.Table

/-!
# Clients.Rep

`get_frontend` and `release_frontend`, which `virt_db`, `multi`, `session_shared` and `sort` have in
common: one `Frontend` object for each client session, used by one package at a time. What the four
filters do differently is a `Filter`: the state of the object, what a package does to it, and what
is sent when the object is dropped.

A step is one locked section of a package, or the work it does between the two. Objects behind
shared pointers are known by a number. `log` is not in the source; it records, newest first, who has
been released and what has been dropped and sent.
-/

namespace Metaproxy
namespace Clients

open Lib

abbrev SessionId := Nat

/-- A package has a copy of its session: the id is shared, `m_close` is not. -/
structure Session where
  id : SessionId
  isClosed : Bool
deriving DecidableEq, Repr

/-- `φ` is the state of a `Frontend` object, `α` what a package asks for together with the answers
it gets, `ε` what is sent to backends. -/
structure Filter (φ α ε : Type*) where
  /-- `new Frontend(this)`. -/
  create : φ
  /-- The part of `process` between the two calls; the flag is `package.session().is_closed()`. -/
  process : φ → α → φ × Bool × List ε
  /-- `Frontend::close`, for the filters that have it. -/
  close : φ → List ε

structure Frontend (φ : Type*) where
  inUse : Bool
  state : φ

inductive Pc where
  | outside
  /-- In `m_cond_session_ready.wait`. -/
  | waiting
  /-- `get_frontend` has returned this object. -/
  | inside (ptr : Nat)
deriving DecidableEq, Repr

structure Package where
  session : Session
  pc : Pc
deriving DecidableEq, Repr

inductive Event (ε : Type*) where
  | released (id : SessionId) (closed : Bool)
  /-- The object is no longer in `m_clients`. -/
  | erased (id : SessionId) (ptr : Nat)
  /-- Sent by the object of this number. -/
  | sent (id : SessionId) (ptr : Nat) (e : ε)
deriving DecidableEq, Repr

structure St (φ ε : Type*) where
  clients : Table SessionId Nat
  frontends : Nat → Frontend φ
  /-- How many objects have been made. -/
  made : Nat
  packages : Nat → Package
  log : List (Event ε)

inductive Label (α : Type*) where
  /-- A package comes in with its own copy of a session. -/
  | arrive (p : Nat) (session : Session)
  /-- `wait` returns, for whatever reason. -/
  | wake (p : Nat)
  | work (p : Nat) (a : α)
  | release (p : Nat)

variable {φ α ε : Type*}

def St.setPackage (s : St φ ε) (p : Nat) (pkg : Package) : St φ ε :=
  { s with packages := Function.update s.packages p pkg }

def St.setFrontend (s : St φ ε) (ptr : Nat) (f : Frontend φ) : St φ ε :=
  { s with frontends := Function.update s.frontends ptr f }

/-- Once around the loop of `get_frontend`. -/
def getFrontend (F : Filter φ α ε) (s : St φ ε) (p : Nat) (session : Session) : St φ ε :=
  match s.clients.lookup session.id with
  | some ptr =>
    if (s.frontends ptr).inUse then s.setPackage p ⟨session, .waiting⟩
    else (s.setFrontend ptr { s.frontends ptr with inUse := true }).setPackage p
      ⟨session, .inside ptr⟩
  | none =>
    { (s.setFrontend s.made ⟨true, F.create⟩).setPackage p ⟨session, .inside s.made⟩ with
      clients := s.clients.insert session.id s.made
      made := s.made + 1 }

/-- It looks the session up again, whatever object the package has. -/
def releaseFrontend (F : Filter φ α ε) (s : St φ ε) (session : Session) : St φ ε :=
  match s.clients.lookup session.id with
  | some ptr =>
    if session.isClosed then
      { s with
        clients := s.clients.erase session.id
        log := .erased session.id ptr ::
          ((F.close (s.frontends ptr).state).map (.sent session.id ptr) ++ s.log) }
    else s.setFrontend ptr { s.frontends ptr with inUse := false }
  | none => s

def step (F : Filter φ α ε) (s : St φ ε) : Label α → Option (St φ ε)
  | .arrive p session =>
    if (s.packages p).pc = .outside then some (getFrontend F s p session) else none
  | .wake p =>
    if (s.packages p).pc = .waiting then some (getFrontend F s p (s.packages p).session) else none
  | .work p a =>
    match s.packages p with
    | ⟨session, .inside ptr⟩ =>
      let r := F.process (s.frontends ptr).state a
      some { (s.setFrontend ptr { s.frontends ptr with state := r.1 }).setPackage p
          ⟨{ session with isClosed := session.isClosed || r.2.1 }, .inside ptr⟩ with
        log := r.2.2.map (.sent session.id ptr) ++ s.log }
    | _ => none
  | .release p =>
    match s.packages p with
    | ⟨session, .inside _⟩ =>
      let s := releaseFrontend F s session
      some { s.setPackage p ⟨session, .outside⟩ with
        log := .released session.id session.isClosed :: s.log }
    | _ => none

/-- The package that takes the step. -/
def Label.package : Label α → Nat
  | .arrive p _ => p
  | .wake p => p
  | .work p _ => p
  | .release p => p

/-- What a step can do. -/
theorem step_cases {F : Filter φ α ε} {s s' : St φ ε} {a : Label α} (hs : step F s a = some s') :
    (∃ session, (∀ ptr, (s.packages a.package).pc ≠ .inside ptr) ∧
      s' = getFrontend F s a.package session) ∨
    (∃ p x session ptr, a = .work p x ∧ s.packages p = ⟨session, .inside ptr⟩ ∧
      s' = { (s.setFrontend ptr { s.frontends ptr with
            state := (F.process (s.frontends ptr).state x).1 }).setPackage p
          ⟨{ session with
              isClosed := session.isClosed || (F.process (s.frontends ptr).state x).2.1 },
            .inside ptr⟩ with
        log := (F.process (s.frontends ptr).state x).2.2.map (.sent session.id ptr) ++ s.log }) ∨
    ∃ p session ptr, a = .release p ∧ s.packages p = ⟨session, .inside ptr⟩ ∧
      s' = { (releaseFrontend F s session).setPackage p ⟨session, .outside⟩ with
        log := .released session.id session.isClosed :: (releaseFrontend F s session).log } := by
  cases a with
  | arrive p session =>
    simp only [step] at hs
    split at hs
    · rename_i hpc
      cases hs
      exact .inl ⟨session, fun ptr hin => (nomatch hpc.symm.trans hin), rfl⟩
    · cases hs
  | wake p =>
    simp only [step] at hs
    split at hs
    · rename_i hpc
      cases hs
      exact .inl ⟨_, fun ptr hin => (nomatch hpc.symm.trans hin), rfl⟩
    · cases hs
  | work p x =>
    simp only [step] at hs
    split at hs
    · rename_i session ptr hp
      cases hs
      exact .inr (.inl ⟨p, x, session, ptr, rfl, hp, rfl⟩)
    · cases hs
  | release p =>
    simp only [step] at hs
    split at hs
    · rename_i session ptr hp
      cases hs
      exact .inr (.inr ⟨p, session, ptr, rfl, hp, rfl⟩)
    · cases hs

def init (s : St φ ε) : Prop :=
  s.clients = ∅ ∧ s.made = 0 ∧ (∀ p, (s.packages p).pc = .outside) ∧ s.log = []

/-- Before the first package. -/
def St.start (F : Filter φ α ε) : St φ ε where
  clients := ∅
  frontends _ := ⟨false, F.create⟩
  made := 0
  packages _ := ⟨⟨0, false⟩, .outside⟩
  log := []

theorem init_start (F : Filter φ α ε) : init (St.start F) := ⟨rfl, rfl, fun _ => rfl, rfl⟩

/-- A filter that hands its packages on and keeps nothing; they may come back closed. -/
def plain : Filter Unit Bool Empty where
  create := ()
  process _ closed := ((), closed, [])
  close _ := []

end Clients
end Metaproxy
