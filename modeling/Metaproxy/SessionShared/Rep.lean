import Mathlib.Logic.Function.Basic
import Metaproxy.Lib.Run
import Metaproxy.SessionShared.Frontend

/-!
# SessionShared.Rep

The whole filter: the backend classes, the map from init keys to classes, the threads of the
clients and the expiry worker. A step is one locked section of one of them, a request that a
client sends, or a change of the clock.
-/

namespace Metaproxy
namespace SessionShared

open Lib BackendClass

structure Thread where
  /-- `none` as long as there was no init. -/
  frontend : Option Frontend
  pc : Pc
  response : Option Response

/-- The worker in `expire_classes`; it holds `m_mutex_backend_map` unless it is idle. -/
inductive Worker where
  | idle
  /-- At the class of this position in `m_backend_map`. -/
  | visit (n : Nat)
  /-- In `expire_instances`, having read the time. -/
  | timed (n : Nat) (now : Time)
  /-- `expire_instances` has returned true. -/
  | emptied (n : Nat)
deriving DecidableEq, Repr

structure St where
  clock : Time
  backendMap : Table InitKey Nat
  classes : Nat → BackendClass
  /-- How many classes have been made. -/
  made : Nat
  threads : Client → Thread
  worker : Worker
  /-- Above all numbers of instances and sets. -/
  fresh : Nat

inductive ClientRequest where
  | init (req : InitRequest)
  | search (req : SearchRequest)
  | present (req : PresentRequest)
  | scan
  | close
  | other

inductive Label where
  | clock (now : Time)
  | request (client : Client) (r : ClientRequest)
  | thread (client : Client) (o : Outcome)
  | worker

def St.setThread (s : St) (client : Client) (th : Thread) : St :=
  { s with threads := Function.update s.threads client th }

/-- `Rep::init` up to the end of its first critical section. -/
def startInit (cfg : Config) (s : St) (client : Client) (req : InitRequest) : Option St :=
  if s.worker ≠ .idle then none
  else
    let key := InitKey.ofRequest cfg req
    match s.backendMap.lookup key with
    | some c => some (s.setThread client ⟨some ⟨key, c, ∅⟩, .init req, none⟩)
    | none =>
      some { s.setThread client ⟨some ⟨key, s.made, ∅⟩, .init req, none⟩ with
        backendMap := s.backendMap.insert key s.made
        classes := Function.update s.classes s.made (.new key)
        made := s.made + 1 }

/-- `process` for a client that is idle, up to the first critical section of a class. -/
def startRequest (cfg : Config) (s : St) (client : Client) (r : ClientRequest) : Option St :=
  match (s.threads client).pc, (s.threads client).frontend, r with
  | .idle, none, .init req => startInit cfg s client req
  | .idle, none, _ => some s
  | .idle, some _, .init _ => some (s.setThread client ⟨none, .idle, some (.close "double init")⟩)
  | .idle, some f, .search req =>
    match prepareSearch f.sets req with
    | (sets, .error (d, addinfo)) =>
      some (s.setThread client ⟨some { f with sets }, .idle, some (.searchDiagnostic d addinfo)⟩)
    | (sets, .ok query) =>
      some (s.setThread client ⟨some { f with sets },
        .getSet (.call (.search req) req.databaseNames query), none⟩)
  | .idle, some f, .present req =>
    match f.sets.lookup req.resultSetId with
    | none =>
      some (s.setThread client ⟨some f, .idle,
        some (.presentDiagnostic .specifiedResultSetDoesNotExist req.resultSetId)⟩)
    | some fset =>
      some (s.setThread client ⟨some f,
        .getSet (.call (.present req) fset.databases fset.query), none⟩)
  | .idle, some f, .scan => some (s.setThread client ⟨some f, .scan, none⟩)
  | .idle, some _, .close =>
    some (s.setThread client ⟨none, .idle, some (.close "received close from client")⟩)
  | .idle, some _, .other =>
    some (s.setThread client
      ⟨none, .idle, some (.close "unsupported APDU in filter_session_shared")⟩)
  | _, _, _ => none

def stepThread (cfg : Config) (s : St) (client : Client) (o : Outcome) : Option St :=
  let th := s.threads client
  th.frontend.bind fun f =>
    (threadStep cfg s.clock s.fresh client (s.classes f.backendClass) f th.pc o).map fun a =>
      { s.setThread client ⟨a.frontend, a.pc, a.response.or th.response⟩ with
        classes := Function.update s.classes f.backendClass a.backendClass
        fresh := s.fresh + 1 }

/-- `expire_classes`. -/
def stepWorker (cfg : Config) (s : St) : Option St :=
  match s.worker with
  | .idle => some { s with worker := .visit 0 }
  | .visit n =>
    if n < s.backendMap.entries.length then some { s with worker := .timed n s.clock }
    else some { s with worker := .idle }
  | .timed n now =>
    s.backendMap.entries[n]?.map fun e =>
      let bc := (s.classes e.2).expireInstances cfg now s.clock
      { s with
        classes := Function.update s.classes e.2 bc
        worker := if bc.backendList.isEmpty then .emptied n else .visit (n + 1) }
  | .emptied n =>
    s.backendMap.entries[n]?.map fun e =>
      { s with backendMap := s.backendMap.erase e.1, worker := .visit 0 }

def step (cfg : Config) (s : St) : Label → Option St
  | .clock now => some { s with clock := now }
  | .request client r => startRequest cfg s client r
  | .thread client o => stepThread cfg s client o
  | .worker => stepWorker cfg s

def init (s : St) : Prop :=
  s.backendMap = ∅ ∧ s.made = 0 ∧ (∀ client, s.threads client = ⟨none, .idle, none⟩) ∧
    s.worker = .idle

/-- At time 0, before the first request. -/
def St.start : St where
  clock := 0
  backendMap := ∅
  classes _ := .new ⟨[], []⟩
  made := 0
  threads _ := ⟨none, .idle, none⟩
  worker := .idle
  fresh := 0

theorem init_start : init St.start := ⟨rfl, rfl, fun _ => rfl, rfl⟩

/-! ### Scripts -/

def plainInit : InitRequest := ⟨[], [], [], 0, 0⟩

def accepts (namedResultSets : Bool) : InitOutcome :=
  ⟨some ⟨if namedResultSets then [optionNamedResultSets] else [], true, 0, 0, none⟩, false⟩

def titleQuery (term : UInt8) : Query :=
  .type1 ⟨[1, 2, 840, 10003, 3, 1], .leaf (.apt [⟨none, 1, .numeric 4⟩] [term])⟩

/-- A search for a title in the database `db`. -/
def searchTitle (resultSetName : String) (term : UInt8) : SearchRequest :=
  ⟨resultSetName, true, ["db"], titleQuery term, none⟩

def hits (resultCount : Int) : Outcome := .searched (some ⟨resultCount, none, none⟩)

def failed (condition : Int) : Outcome :=
  .searched (some ⟨0, some (.nonSurrogateDiagnostic condition ""), none⟩)

/-- The client's thread goes `n` steps that need no answer. -/
def goes (client : Client) (n : Nat) : List Label := List.replicate n (.thread client .go)

/-- An init for which an instance is created. -/
def inits (client : Client) (namedResultSets : Bool) : List Label :=
  .request client (.init plainInit) :: goes client 2 ++
    [.thread client (.initAnswered (accepts namedResultSets))] ++ goes client 2

/-- A search that goes to an idle instance of the class. -/
def searches (client : Client) (req : SearchRequest) (answer : Outcome) : List Label :=
  .request client (.search req) :: goes client 3 ++ [.thread client answer] ++ goes client 2

end SessionShared
end Metaproxy
