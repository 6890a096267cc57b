import Metaproxy.SessionShared.Query

/-!
# SessionShared.BackendClass

Backend sets, backend instances and backend classes of `filter_session_shared.cpp`, with the
operations that a frontend or the expiry worker does on a class in one critical section.

Objects behind shared pointers are known by a number. `log` and `creating` are not in the source:
they record what has happened in a class, newest first, and whose `create_backend` is under way.
-/

namespace Metaproxy
namespace SessionShared

open Lib

abbrev Time := Int

abbrev InstanceId := Nat

/-- A client session, which is served by one thread at a time. -/
abbrev Client := Nat

structure Config where
  resultsetTtl : Int
  resultsetMax : Nat
  sessionTtl : Int
  optimizeSearch : Bool
  restart : Bool
  ignoreAuth : Bool
  sessionMax : Nat
  preferredMessageSize : Int
  maximumRecordSize : Int

/-- `Rep::Rep`. -/
def Config.default : Config where
  resultsetTtl := 30
  resultsetMax := 10
  sessionTtl := 90
  optimizeSearch := true
  restart := false
  ignoreAuth := false
  sessionMax := 100
  preferredMessageSize := 0
  maximumRecordSize := 0

structure InitKey where
  /-- Encoding of `idAuthentication`; empty when there is none. -/
  idAuthentication : List UInt8
  /-- Encoding of `otherInfo`. -/
  otherInfo : List UInt8
deriving DecidableEq, Repr

/-- Bit of the Z39.50 init options. -/
def optionNamedResultSets : Nat := 14

structure InitResponse where
  options : List Nat
  result : Bool
  preferredMessageSize : Int
  maximumRecordSize : Int
  /-- The diagnostic of `userInformationField`. -/
  diagnostic : Option (Int × String)
deriving DecidableEq, Repr

def InitResponse.grantsNamedResultSets (res : InitResponse) : Bool :=
  optionNamedResultSets ∈ res.options

inductive ResultSetId where
  | default
  | sequence (n : Nat)
deriving DecidableEq, Repr

/-- The `resultSetName` that the target sees. -/
def ResultSetId.name : ResultSetId → String
  | .default => "default"
  | .sequence n => toString n

structure BackendSet where
  ptr : Nat
  resultSetId : ResultSetId
  databases : List String
  resultSetSize : Int
  query : Query
  timeLastUse : Time
  additionalSearchInfoRequest : Option (List UInt8)
  additionalSearchInfoResponse : Option (List UInt8)
deriving DecidableEq, Repr

structure BackendInstance where
  id : InstanceId
  sets : List BackendSet
  inUse : Bool
  sequenceThis : Nat
  resultSetSequence : Nat
  timeLastUse : Time
deriving DecidableEq, Repr

inductive Event where
  | initAnswered (granted : Bool)
  | acquired (client : Client) (i : InstanceId)
  | released (client : Client) (i : InstanceId)
  | removed (client : Client) (i : InstanceId)
  | searchSent (i : InstanceId) (id : ResultSetId) (databases : List String) (query : Query)
  /-- A present for the given databases and query goes to the result set `id`. -/
  | presentSent (i : InstanceId) (id : ResultSetId) (databases : List String) (query : Query)
  /-- A request is served from the set `ptr`. -/
  | served (i : InstanceId) (ptr : Nat) (now : Time)
  | replaced (i : InstanceId) (ptr : Nat) (outOfSessions : Bool) (now : Time)
  | dropped (i : InstanceId) (now : Time)
deriving DecidableEq, Repr

structure BackendClass where
  key : InitKey
  namedResultSets : Bool
  backendList : List BackendInstance
  initResponse : Option InitResponse
  sequenceTop : Nat
  noFailed : Nat
  noSucceeded : Nat
  noInit : Nat
  log : List Event
  creating : List Client

namespace BackendClass

/-- The class that `Rep::init` makes for a new key. -/
def new (key : InitKey) : BackendClass where
  key
  namedResultSets := false
  backendList := []
  initResponse := none
  sequenceTop := 0
  noFailed := 0
  noSucceeded := 0
  noInit := 0
  log := []
  creating := []

def record (bc : BackendClass) (events : List Event) : BackendClass :=
  { bc with log := events ++ bc.log }

/-- Changes one instance, in place. -/
def modify (bc : BackendClass) (i : InstanceId) (f : BackendInstance → BackendInstance) :
    BackendClass :=
  { bc with backendList := bc.backendList.map fun b => if b.id = i then f b else b }

def find (bc : BackendClass) (i : InstanceId) : Option BackendInstance :=
  bc.backendList.find? fun b => b.id = i

def useBackend (bc : BackendClass) (client : Client) (i : InstanceId) : BackendClass :=
  { bc.modify i fun b => { b with inUse := true, sequenceThis := bc.sequenceTop } with
    sequenceTop := bc.sequenceTop + 1
    log := .acquired client i :: bc.log }

def releaseBackend (bc : BackendClass) (client : Client) (i : InstanceId) : BackendClass :=
  (bc.modify i fun b => { b with inUse := false }).record [.released client i]

/-- The instance leaves the list; its session is then closed. -/
def removeBackend (bc : BackendClass) (client : Client) (i : InstanceId) : BackendClass :=
  { bc with
    backendList := bc.backendList.filter fun b => b.id ≠ i
    log := .removed client i :: bc.log }

/-- The loop body of `get_backend`. -/
def older (backend1 : Option BackendInstance) (b : BackendInstance) : Option BackendInstance :=
  if b.inUse then backend1
  else
    match backend1 with
    | none => some b
    | some b1 => if b.sequenceThis < b1.sequenceThis then some b else some b1

/-- The idle instance that was taken into use longest ago. -/
def leastRecentlyUsed (bc : BackendClass) : Option BackendInstance :=
  bc.backendList.foldl older none

/-- `BackendInstance::timestamp`, but for its assertion. -/
def timestamp (bc : BackendClass) (i : InstanceId) (now : Time) : BackendClass :=
  bc.modify i fun b => { b with timeLastUse := now }

/-! ### `create_backend` -/

/-- What has come back for an init request: an init response if there is one, and whether the
target closed the session. -/
structure InitOutcome where
  response : Option InitResponse
  closed : Bool

def InitOutcome.accepted (o : InitOutcome) : Bool :=
  o.response.any InitResponse.result && !o.closed

/-- `code` and `addinfo`. -/
def InitOutcome.diagnostic (o : InitOutcome) : Int × String :=
  (o.response.bind InitResponse.diagnostic).getD (0, "")

/-- Before the init request is sent. -/
def countInit (bc : BackendClass) : BackendClass :=
  { bc with noInit := bc.noInit + 1 }

/-- After the answer: the flag and the response are saved, and the new instance `i` is added when
the target accepts. -/
def createdBackend (bc : BackendClass) (client : Client) (i : InstanceId) (now : Time)
    (o : InitOutcome) : BackendClass :=
  let granted := o.response.any InitResponse.grantsNamedResultSets
  let initResponse :=
    if o.response.isSome && bc.noSucceeded = 0 then o.response else bc.initResponse
  let bc := { bc with
    namedResultSets := granted
    initResponse
    creating := bc.creating.erase client
    log := .initAnswered granted :: bc.log }
  if o.accepted then
    { bc with
      backendList := bc.backendList ++ [⟨i, [], true, 0, 0, now⟩]
      noSucceeded := bc.noSucceeded + 1
      log := .acquired client i :: bc.log }
  else { bc with noFailed := bc.noFailed + 1 }

/-! ### `get_set` -/

/-- A set with the same databases and query; a search request also wants the same additional
search information. -/
def similar (databases : List String) (query : Query)
    (additionalSearchInfo : Option (Option (List UInt8))) (set : BackendSet) : Bool :=
  Util.match_ set.databases databases && query = set.query &&
    additionalSearchInfo.all (· = set.additionalSearchInfoRequest)

/-- The first instance with a set that meets `p`, and the first such set. -/
def firstWith (p : BackendSet → Bool) : List BackendInstance → Option (BackendInstance × BackendSet)
  | [] => none
  | b :: list =>
    match b.sets.find? p with
    | some set => some (b, set)
    | none => firstWith p list

/-- `max_sets` of `override_set`. -/
def maxSets (cfg : Config) (bc : BackendClass) : Nat :=
  if bc.namedResultSets then cfg.resultsetMax else 1

inductive Override where
  /-- A set of an idle instance is replaced. -/
  | replace (b : BackendInstance) (set : BackendSet)
  /-- An idle instance has room for another set. -/
  | add (b : BackendInstance)

/-- The choice of `override_set`. -/
def overrideSet (cfg : Config) (now : Time) (bc : BackendClass) (databases : List String)
    (outOfSessions : Bool) : Option Override :=
  let maxSets := maxSets cfg bc
  let expired (set : BackendSet) : Bool :=
    (maxSets > 1 || Util.match_ set.databases databases) &&
      (outOfSessions || now < set.timeLastUse || now - set.timeLastUse ≥ cfg.resultsetTtl)
  match firstWith expired (bc.backendList.filter fun b => !b.inUse) with
  | some (b, set) => some (.replace b set)
  | none => (bc.backendList.find? fun b => !b.inUse && b.sets.length < maxSets).map .add

/-- The id for a new set on an instance, and the instance after it is given. -/
def nextId (bc : BackendClass) (b : BackendInstance) : ResultSetId :=
  if bc.namedResultSets then .sequence b.resultSetSequence else .default

def countId (bc : BackendClass) (i : InstanceId) : BackendClass :=
  if bc.namedResultSets then
    bc.modify i fun b => { b with resultSetSequence := b.resultSetSequence + 1 }
  else bc

def eraseSet (bc : BackendClass) (i : InstanceId) (ptr : Nat) : BackendClass :=
  bc.modify i fun b => { b with sets := b.sets.filter fun set => set.ptr ≠ ptr }

def pushSet (bc : BackendClass) (i : InstanceId) (set : BackendSet) : BackendClass :=
  bc.modify i fun b => { b with sets := b.sets ++ [set] }

/-! ### Expiry -/

def expires (cfg : Config) (now : Time) (b : BackendInstance) : Bool :=
  !b.inUse && (now < b.timeLastUse || now - b.timeLastUse > cfg.sessionTtl)

/-- `expire_instances` with the time `now` it has read; `clock` is the time it has become. -/
def expireInstances (cfg : Config) (now clock : Time) (bc : BackendClass) : BackendClass :=
  { bc with
    backendList := bc.backendList.filter fun b => !expires cfg now b
    log := ((bc.backendList.filter (expires cfg now)).map fun b => .dropped b.id clock) ++ bc.log }

end BackendClass

end SessionShared
end Metaproxy
