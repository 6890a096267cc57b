import Metaproxy.Lib.Run
import Metaproxy.Lib.Table
import Metaproxy.Util

/-!
# VirtualDB.Frontend

The frontend session of `filter_virt_db.cpp`: which backend a search, present or scan goes to and
under which result set name, and what `m_sets` remembers of it.

One session handles one package at a time (`get_frontend`), so a run is a sequence of requests,
each with the answers of the backends it reaches. `log` records the packages sent to backends, the
latest first. Record contents are not modelled here: what `fixup_package` renames stays out.
-/

namespace Metaproxy
namespace VirtualDB

open Lib

structure Map where
  dbpattern : String
  targets : List String
  route : String

/-- A backend is told from another by the id of its session. -/
structure Backend where
  session : Nat
  frontendDatabases : List String
  targets : List String
  route : String
  namedResultSets : Bool
deriving DecidableEq, Repr

structure Set where
  backend : Backend
  setname : String
deriving DecidableEq, Repr

/-- The configuration, with the two YAZ functions the filter calls on it: `yaz_match_glob` and
`cs_get_host_args`. -/
structure Rep where
  maps : List Map
  matchGlob : String → String → Bool
  hostArgs : String → Option String

def Map.match_ (rep : Rep) (m : Map) (db : String) : Bool :=
  rep.matchGlob m.dbpattern (Util.databaseNameNormalize db)

/-- A package sent to a backend. -/
inductive Sent where
  | init (session : Nat) (route : String) (vhosts : List String)
  /-- `set` is the name the client used; `ok` tells whether the answer was a search response
  without diagnostics on an open session. -/
  | search (set : String) (session : Nat) (route setname : String) (databases : List String)
      (ok : Bool)
  | present (set : String) (session : Nat) (route setname : String)
  | scan (session : Nat) (route : String) (databases : List String)
  | relay (session : Nat) (route : String)
  | close (session : Nat) (route : String)
deriving DecidableEq, Repr

inductive Reply where
  | searchResponse (diag : Bib1) (addinfo : String)
  | presentResponse (diag : Bib1) (addinfo : String)
  | scanResponse (diag : Bib1) (addinfo : String)
  | close (text : String)
  | backend
deriving DecidableEq, Repr

structure St where
  backendList : List Backend
  sets : Table String Set
  /-- `Session::m_global_id` -/
  globalId : Nat
  /-- The session of the package is closed: its frontend is about to go. -/
  isClosed : Bool
  log : List Sent

/-! ## Backends -/

def createLoop (rep : Rep) :
    List String → Bool → List String → String → Except (Bib1 × String) (List String × String)
  | [], _, targets, route => .ok (targets, route)
  | db :: databases, firstRoute, targets, route =>
    match rep.maps.find? fun m => m.match_ rep db with
    | none => .error (.databaseDoesNotExist, db)
    | some m =>
      let targets := m.targets.foldl (fun ts t => if t ∈ ts then ts else ts ++ [t]) targets
      -- routing must be the same for all
      if !firstRoute && route ≠ m.route then .error (.combiOfSpecifiedDatabasesUnsupp, "")
      else createLoop rep databases false targets m.route

def createBackendFromDatabases (rep : Rep) (session : Nat) (databases : List String) :
    Except (Bib1 × String) Backend :=
  match createLoop rep databases true [] "" with
  | .error e => .error e
  | .ok (targets, route) =>
    .ok { session, frontendDatabases := databases, targets, route, namedResultSets := false }

structure InitResponse where
  namedResultSets : Bool
  result : Bool
  /-- Condition and addinfo, when the response has a diagnostic. -/
  diag : Option (Int × String)

/-- What comes back from `init_package.move()`. -/
structure InitAnswer where
  response : Option InitResponse
  closed : Bool

/-- The diagnostic of a failed init: that of the target, unless it has none or its condition
is 0. -/
def initDiagnostic (databases : List String) (response : Option InitResponse) : Bib1 × String :=
  let diag := (response.bind (·.diag)).getD (0, "")
  if diag.1 = 0 then (.accessToSpecifiedDatabaseDenied, databases.headD diag.2)
  else (.target diag.1, diag.2)

def initBackend (rep : Rep) (s : St) (databases : List String) (answer : InitAnswer) :
    St × Except (Bib1 × String) Backend :=
  -- the session of the new Backend takes an id even when it comes to nothing
  let s := { s with globalId := s.globalId + 1 }
  match createBackendFromDatabases rep s.globalId databases with
  | .error e => (s, .error e)
  | .ok b =>
    let s := { s with log := .init b.session b.route b.targets :: s.log }
    let named := (answer.response.map (·.namedResultSets)).getD false
    let accepted := (answer.response.map (·.result)).getD false
    if accepted && !answer.closed then
      let b := { b with namedResultSets := named }
      ({ s with backendList := s.backendList ++ [b] }, .ok b)
    else
      let s := if answer.closed then s else { s with log := .close b.session b.route :: s.log }
      (s, .error (initDiagnostic databases answer.response))

/-! ## Requests -/

structure SearchRequest where
  resultSetName : String
  replaceIndicator : Bool
  databaseNames : List String

inductive Records where
  | none
  | dbosd
  | diagnostics
deriving DecidableEq, Repr

/-- What comes back from `search_package.move()`: `some` for a search response. -/
structure SearchAnswer where
  response : Option Records
  closed : Bool

def SearchAnswer.ok (a : SearchAnswer) : Bool :=
  !a.closed && (a.response = some .none || a.response = some .dbosd)

/-- The databases of the first target, or those of the request. -/
def Backend.databaseNames (rep : Rep) (b : Backend) (databases : List String) : List String :=
  (b.targets.head?.bind (Util.databasesFromZurl rep.hostArgs)).getD databases

def Backend.setname (b : Backend) (resultSetName : String) : String :=
  if b.namedResultSets then resultSetName else "default"

/-- The part of `search` that has its backend. -/
def searchOn (rep : Rep) (s : St) (b : Backend) (req : SearchRequest) (answer : SearchAnswer) :
    St × Reply :=
  let name := req.resultSetName
  let sets := s.sets.erase name
  let sent := .search name b.session b.route (b.setname name)
    (b.databaseNames rep req.databaseNames) answer.ok
  let s := { s with sets := sets, log := sent :: s.log }
  if answer.closed then ({ s with isClosed := true }, .backend)
  else if answer.ok then
    ({ s with sets := sets.insert name ⟨b, b.setname name⟩ }, .backend)
  else (s, .backend)

/-- Any existing backend for the same databases with named result sets, or, when a set is
overridden, any. -/
def pickBackend (s : St) (databases : List String) (overrideSet : Bool) : Option Backend :=
  s.backendList.find? fun b =>
    Util.match_ b.frontendDatabases databases && (b.namedResultSets || overrideSet)

def search (rep : Rep) (s : St) (req : SearchRequest) (ia : InitAnswer) (sa : SearchAnswer) :
    St × Reply :=
  let overrideSet := (s.sets.lookup req.resultSetName).isSome
  if overrideSet && !req.replaceIndicator then
    (s, .searchResponse .resultSetExistsAndReplaceIndicatorOff "")
  else
    match pickBackend s req.databaseNames overrideSet with
    | some b => searchOn rep s b req sa
    | none =>
      match initBackend rep s req.databaseNames ia with
      | (s, .error (diag, addinfo)) => (s, .searchResponse diag addinfo)
      | (s, .ok b) => searchOn rep s b req sa

def present (s : St) (resultSetId : String) (closed : Bool) : St × Reply :=
  match s.sets.lookup resultSetId with
  | none => (s, .presentResponse .specifiedResultSetDoesNotExist resultSetId)
  | some set =>
    let sent := .present resultSetId set.backend.session set.backend.route set.setname
    ({ s with log := sent :: s.log, isClosed := closed }, .backend)

def scanOn (rep : Rep) (s : St) (b : Backend) (databases : List String) (closed : Bool) :
    St × Reply :=
  let sent := .scan b.session b.route (b.databaseNames rep databases)
  ({ s with log := sent :: s.log, isClosed := closed }, .backend)

def scan (rep : Rep) (s : St) (databases : List String) (ia : InitAnswer) (closed : Bool) :
    St × Reply :=
  match s.backendList.find? fun b => Util.match_ b.frontendDatabases databases with
  | some b => scanOn rep s b databases closed
  | none =>
    match initBackend rep s databases ia with
    | (s, .error (diag, addinfo)) => (s, .scanResponse diag addinfo)
    | (s, .ok b) => scanOn rep s b databases closed

def relayApdu (s : St) : St × Nat :=
  ({ s with log := (s.backendList.map fun b => .relay b.session b.route).reverse ++ s.log },
    s.backendList.length)

/-- What `process` gets from the client once the session is virtual, with the answers. -/
inductive Label where
  | init
  | search (req : SearchRequest) (ia : InitAnswer) (sa : SearchAnswer)
  | present (resultSetId : String) (closed : Bool)
  | scan (databases : List String) (ia : InitAnswer) (closed : Bool)
  | close
  | unsupported
  /-- A session id is taken elsewhere in the proxy. -/
  | otherSession

def process (rep : Rep) (s : St) : Label → St × Reply
  | .init => ({ s with isClosed := true }, .close "double init")
  | .search req ia sa => search rep s req ia sa
  | .present resultSetId closed => present s resultSetId closed
  | .scan databases ia closed => scan rep s databases ia closed
  | .close =>
    match relayApdu s with
    | (s, 0) => ({ s with isClosed := true }, .close "virt_db")
    | (s, _ + 1) => (s, .backend)
  | .unsupported => ({ s with isClosed := true }, .close "unsupported APDU in filter_virt_db")
  | .otherSession => ({ s with globalId := s.globalId + 1 }, .backend)

/-- The frontend takes requests until its session is closed. -/
def step (rep : Rep) (s : St) (a : Label) : Option St :=
  if s.isClosed then none else some (process rep s a).1

/-- The session after its init: no backend, no result set. -/
def init (s : St) : Prop :=
  s.backendList = [] ∧ s.sets = ∅ ∧ s.isClosed = false ∧ s.log = []

end VirtualDB
end Metaproxy
