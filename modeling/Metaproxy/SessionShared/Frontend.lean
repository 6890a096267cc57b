import Metaproxy.SessionShared.BackendClass

/-!
# SessionShared.Frontend

A frontend session and the thread that serves its requests, as a program counter over the locked
sections of `get_set`, `search`, `present`, `scan`, `create_backend` and `Rep::init`. Between two of
them other threads run; what a target answers comes with the step that receives it (`Outcome`).
-/

namespace Metaproxy
namespace SessionShared

open BackendClass

structure InitRequest where
  idAuthentication : List UInt8
  otherInfo : List UInt8
  options : List Nat
  preferredMessageSize : Int
  maximumRecordSize : Int
deriving DecidableEq, Repr

def InitKey.ofRequest (cfg : Config) (req : InitRequest) : InitKey where
  idAuthentication := if cfg.ignoreAuth then [] else req.idAuthentication
  otherInfo := req.otherInfo

structure PresentRequest where
  resultSetId : String
  resultSetStartPoint : Int
  numberOfRecordsRequested : Int
deriving DecidableEq, Repr

inductive DiagRec where
  | default (condition : Int) (addinfo : String)
  | external (encoding : List UInt8)
deriving DecidableEq, Repr

inductive Records where
  | databaseOrSurDiagnostics (encoding : List UInt8)
  | nonSurrogateDiagnostic (condition : Int) (addinfo : String)
  | multipleNonSurDiagnostics (diagRecs : List DiagRec)
deriving DecidableEq, Repr

/-- `YAZ_BIB1_TEMPORARY_SYSTEM_ERROR`. -/
def temporarySystemError : Int := 2

/-- The condition of the records of a search response; 0 when they are no diagnostics. -/
def Records.condition : Option Records → Int
  | some (.nonSurrogateDiagnostic condition _) => condition
  | some (.multipleNonSurDiagnostics (.default condition _ :: _)) => condition
  | _ => 0

inductive Response where
  | init (res : InitResponse)
  | initDiagnostic (d : Bib1) (addinfo : String)
  | search (resultCount : Int) (additionalSearchInfo : Option (List UInt8))
  | searchRecords (records : Option Records)
  | searchDiagnostic (d : Bib1) (addinfo : String)
  | presentCached (numberOfRecordsReturned nextResultSetPosition : Int)
  | present (encoding : List UInt8)
  | presentRecords (records : Option Records)
  | presentDiagnostic (d : Bib1) (addinfo : String)
  | scan (encoding : List UInt8)
  | scanDiagnostic (d : Bib1) (addinfo : String)
  | close (reason : String)
deriving DecidableEq, Repr

/-- A request that needs a backend set. -/
inductive Request where
  | search (req : SearchRequest)
  | present (req : PresentRequest)
deriving DecidableEq, Repr

def Request.additionalSearchInfo : Request → Option (List UInt8)
  | .search req => req.additionalSearchInfo
  | .present _ => none

/-- What a similar search must agree with. -/
def Request.wantedSearchInfo : Request → Option (Option (List UInt8))
  | .search req => some req.additionalSearchInfo
  | .present _ => none

/-- A search is answered as soon as `get_set` has its set; a present is served later. -/
def Request.answered (i : InstanceId) (set : BackendSet) (now : Time) : Request → List Event
  | .search _ => [.served i set.ptr now]
  | .present _ => []

def Request.diagnostic (addinfo : String) : Request → Response
  | .search _ => .searchDiagnostic .temporarySystemError addinfo
  | .present _ => .presentDiagnostic .temporarySystemError addinfo

def Request.records (records : Option Records) : Request → Response
  | .search _ => .searchRecords records
  | .present _ => .presentRecords records

/-- The arguments and locals of `get_set`. -/
structure GetSet where
  request : Request
  databases : List String
  query : Query
  restarted : Bool
  outOfSessions : Bool
  resultSetId : ResultSetId
  foundBackend : Option InstanceId
  foundSet : Option BackendSet
deriving DecidableEq, Repr

/-- The new `BackendSet`; its constructor sets the time. -/
def GetSet.newSet (g : GetSet) (ptr : Nat) (now : Time) : BackendSet where
  ptr
  resultSetId := g.resultSetId
  databases := g.databases
  resultSetSize := 0
  query := g.query
  timeLastUse := now
  additionalSearchInfoRequest := g.request.additionalSearchInfo
  additionalSearchInfoResponse := none

/-- A call of `get_set`. -/
def GetSet.call (request : Request) (databases : List String) (query : Query) : GetSet :=
  ⟨request, databases, query, false, false, .default, none, none⟩

/-- Who has called `create_backend`. -/
inductive Creator where
  | init (req : InitRequest)
  | getSet (g : GetSet)
  | scan
deriving DecidableEq, Repr

/-- What follows `release_backend` or `remove_backend`. -/
inductive Next where
  | done
  /-- The client's session is closed. -/
  | closed
  | initReply (req : InitRequest)
  | restart (g : GetSet)
  /-- `found_set.reset()` and return. -/
  | searchError (g : GetSet)
deriving DecidableEq, Repr

inductive Pc where
  | idle
  | init (req : InitRequest)
  | create (c : Creator)
  | initMove (c : Creator)
  | initReply (req : InitRequest)
  /-- At `restart:`. -/
  | getSet (g : GetSet)
  /-- In `m_cond_set_ready.wait`. -/
  | wait (g : GetSet)
  /-- `create_backend` has returned the instance. -/
  | created (i : InstanceId) (g : GetSet)
  | timestamp (i : InstanceId) (g : GetSet)
  | newSet (i : InstanceId) (g : GetSet)
  | search (i : InstanceId) (set : BackendSet) (g : GetSet)
  /-- `get_set` has returned. -/
  | returned (g : GetSet)
  | presentTimestamp (b : Option InstanceId) (set : BackendSet) (g : GetSet)
  | presentSend (i : InstanceId) (set : BackendSet) (g : GetSet)
  | present (i : InstanceId) (set : BackendSet) (g : GetSet)
  | scan
  | scanTimestamp (i : InstanceId)
  | scanMove (i : InstanceId)
  | release (b : Option InstanceId) (next : Next)
  | remove (b : Option InstanceId) (next : Next)
  /-- A null pointer was used, or an assertion failed. -/
  | crashed
deriving DecidableEq, Repr

structure Frontend where
  /-- Key of the init request. -/
  key : InitKey
  /-- `m_backend_class`. -/
  backendClass : Nat
  sets : FrontendSets

structure SearchAnswer where
  resultCount : Int
  records : Option Records
  additionalSearchInfo : Option (List UInt8)
deriving DecidableEq, Repr

/-- What a step gets from outside. -/
inductive Outcome where
  | go
  | initAnswered (o : InitOutcome)
  /-- `none`: closed, or no search response. -/
  | searched (answer : Option SearchAnswer)
  /-- Whether the record cache has the records. -/
  | cached (hit : Bool)
  | presented (response : Option (List UInt8))
  | scanned (closed : Bool) (response : List UInt8)

/-- What a step of a thread leaves behind. -/
structure After where
  backendClass : BackendClass
  /-- `none` when the session of the client has been closed. -/
  frontend : Option Frontend
  pc : Pc
  /-- A response that was set. -/
  response : Option Response

def Next.after (bc : BackendClass) (f : Frontend) : Next → After
  | .done => ⟨bc, f, .idle, none⟩
  | .closed => ⟨bc, none, .idle, none⟩
  | .initReply req => ⟨bc, f, .initReply req, none⟩
  | .restart g => ⟨bc, f, .getSet g, none⟩
  | .searchError g => ⟨bc, f, .returned { g with foundSet := none }, none⟩

/-- The call of `create_backend`. -/
def BackendClass.beginCreate (bc : BackendClass) (client : Client) : BackendClass :=
  { bc with creating := client :: bc.creating }

/-- `override_set` and what `get_set` does when it finds no instance. -/
def overrideStep (cfg : Config) (now : Time) (client : Client) (bc : BackendClass) (f : Frontend)
    (g : GetSet) : After :=
  match overrideSet cfg now bc g.databases g.outOfSessions with
  | some (.replace b set) =>
    ⟨((bc.eraseSet b.id set.ptr).record [.replaced b.id set.ptr g.outOfSessions now]).useBackend
        client b.id, f,
      .timestamp b.id { g with foundBackend := some b.id, resultSetId := set.resultSetId }, none⟩
  | some (.add b) =>
    ⟨(bc.countId b.id).useBackend client b.id, f,
      .timestamp b.id { g with foundBackend := some b.id, resultSetId := nextId bc b }, none⟩
  | none =>
    if g.outOfSessions then
      ⟨bc, f, .returned { g with foundBackend := none },
        g.request.diagnostic "session_shared: all sessions in use"⟩
    else ⟨bc.beginCreate client, f, .create (.getSet g), none⟩

/-- The locked section of `get_set`, from the search for a similar set on. -/
def getSetStep (cfg : Config) (now : Time) (client : Client) (bc : BackendClass) (f : Frontend)
    (g : GetSet) : After :=
  match
    if cfg.optimizeSearch then
      firstWith (similar g.databases g.query g.request.wantedSearchInfo) bc.backendList
    else none with
  | some (b, set) =>
    if b.inUse then ⟨bc, f, .wait g, none⟩
    else
      ⟨(bc.useBackend client b.id).record (g.request.answered b.id set now), f,
        .returned { g with foundBackend := some b.id, foundSet := some set }, none⟩
  | none => overrideStep cfg now client bc f g

/-- `create_backend` has got its answer. -/
def createdStep (now : Time) (fresh : Nat) (client : Client) (bc : BackendClass) (f : Frontend)
    (c : Creator) (o : InitOutcome) : After :=
  let bc := bc.createdBackend client fresh now o
  if o.accepted then
    match c with
    | .init req => ⟨bc, f, .release (some fresh) (.initReply req), none⟩
    | .getSet g => ⟨bc, f, .created fresh { g with foundBackend := some fresh }, none⟩
    | .scan => ⟨bc, f, .scanTimestamp fresh, none⟩
  else
    let addinfo := if o.diagnostic.2.length = 0 then "session_shared: could not create backend"
      else o.diagnostic.2
    match c with
    | .init req => ⟨bc, f, .initReply req, none⟩
    | .getSet g =>
      ⟨bc, f, .returned { g with foundBackend := none }, g.request.diagnostic addinfo⟩
    | .scan =>
      let code := if o.diagnostic.1 = 0 then .temporarySystemError else .target o.diagnostic.1
      ⟨bc, f, .idle, some (.scanDiagnostic code addinfo)⟩

/-- The end of `Rep::init`. -/
def initReplyStep (cfg : Config) (bc : BackendClass) (f : Frontend) (req : InitRequest) : After :=
  match bc.initResponse with
  | some res =>
    let limit (configured server client : Int) : Int :=
      if configured = 0 ∨ server > client then client else server
    ⟨bc, if res.result then some f else none, .idle, some (.init
      { res with
        options := res.options.filter fun bit => bit ≥ 30 || bit ∈ req.options
        preferredMessageSize :=
          limit cfg.preferredMessageSize res.preferredMessageSize req.preferredMessageSize
        maximumRecordSize :=
          limit cfg.maximumRecordSize res.maximumRecordSize req.maximumRecordSize })⟩
  | none =>
    ⟨bc, none, .idle, some (.initDiagnostic .temporarySystemError
      "session_shared: target closed connection during init")⟩

/-- `BackendInstance::timestamp`, with its assertion. -/
def timestampStep (now : Time) (bc : BackendClass) (f : Frontend) (i : InstanceId) (pc : Pc) :
    After :=
  match bc.find i with
  | some b => if b.inUse then ⟨bc.timestamp i now, f, pc, none⟩ else ⟨bc, f, .crashed, none⟩
  | none => ⟨bc, f, .crashed, none⟩

/-- The target has answered the search for `set`. -/
def searchedStep (cfg : Config) (now : Time) (bc : BackendClass) (f : Frontend) (g : GetSet)
    (i : InstanceId) (set : BackendSet) : Option SearchAnswer → After
  | none =>
    ⟨bc, f, .remove (some i) (.searchError g),
      g.request.diagnostic "session_shared: target closed connection during search"⟩
  | some answer =>
    let set := { set with
      resultSetSize := answer.resultCount
      additionalSearchInfoResponse := answer.additionalSearchInfo }
    let condition := Records.condition answer.records
    let restart : After :=
      ⟨bc, f, .remove (some i) (.restart
        { g with restarted := true, foundBackend := none, foundSet := some set }), none⟩
    if cfg.restart ∧ g.restarted = false ∧ condition = temporarySystemError then restart
    else if condition ≠ 0 then
      ⟨bc, f, .release (some i) (.searchError g), g.request.records answer.records⟩
    else if cfg.restart ∧ g.restarted = false ∧ set.resultSetSize < 0 then restart
    else
      ⟨(bc.pushSet i set).record (g.request.answered i set now), f,
        .returned { g with foundBackend := some i, foundSet := some set }, none⟩

/-- Ranges for which `present` looks the record cache up. -/
def PresentRequest.cacheable (req : PresentRequest) : Bool :=
  req.resultSetStartPoint > 0 && req.resultSetStartPoint < 2147483647 &&
    req.numberOfRecordsRequested > 0 && req.numberOfRecordsRequested < 2147483647

/-- `search` and `present` after `get_set`, up to `release_backend` or the present request. -/
def returnedStep (now : Time) (bc : BackendClass) (f : Frontend) (g : GetSet) :
    Outcome → Option After
  | .go =>
    match g.foundSet, g.request with
    | none, _ => some ⟨bc, f, .idle, none⟩
    | some set, .search req =>
      some ⟨bc, some { f with sets := storeSet f.sets req g.query }, .release g.foundBackend .done,
        some (.search set.resultSetSize set.additionalSearchInfoResponse)⟩
    | some _, .present _ => none
  | .cached hit =>
    match g.foundSet, g.request with
    | some set, .present req =>
      if req.cacheable && hit then
        some ⟨bc.record (g.foundBackend.elim [] fun i => [.served i set.ptr now]), f,
          .release g.foundBackend .done, some (.presentCached req.numberOfRecordsRequested
            (req.resultSetStartPoint + req.numberOfRecordsRequested))⟩
      else some ⟨bc, f, .presentTimestamp g.foundBackend set g, none⟩
    | _, _ => none
  | _ => none

/-- One step of the thread of a client whose frontend is `f` and has the class `bc`. -/
def threadStep (cfg : Config) (now : Time) (fresh : Nat) (client : Client) (bc : BackendClass)
    (f : Frontend) : Pc → Outcome → Option After
  | .init req, .go =>
    -- the loop that waits for the first one also asks for `!m_no_succeeded`: it never waits
    if bc.noSucceeded = 0 then
      some ⟨bc.beginCreate client, f, .create (.init req), none⟩
    else some ⟨bc, f, .initReply req, none⟩
  | .create c, .go => some ⟨bc.countInit, f, .initMove c, none⟩
  | .initMove c, .initAnswered o => some (createdStep now fresh client bc f c o)
  | .initReply req, .go => some (initReplyStep cfg bc f req)
  | .getSet g, .go =>
    some (getSetStep cfg now client bc f
      { g with outOfSessions := bc.backendList.length ≥ cfg.sessionMax })
  | .wait g, .go => some (getSetStep cfg now client bc f g)
  | .created i g, .go =>
    match bc.find i with
    | some b => some ⟨bc.countId i, f, .timestamp i { g with resultSetId := nextId bc b }, none⟩
    | none => some ⟨bc, f, .crashed, none⟩
  | .timestamp i g, .go => some (timestampStep now bc f i (.newSet i g))
  | .newSet i g, .go =>
    some ⟨bc.record [.searchSent i g.resultSetId g.databases g.query], f,
      .search i (g.newSet fresh now) { g with foundSet := some (g.newSet fresh now) }, none⟩
  | .search i set g, .searched answer => some (searchedStep cfg now bc f g i set answer)
  | .returned g, o => returnedStep now bc f g o
  | .presentTimestamp (some i) set g, .go =>
    some (timestampStep now bc f i (.presentSend i set g))
  | .presentTimestamp none _ _, .go => some ⟨bc, f, .crashed, none⟩
  | .presentSend i set g, .go =>
    some ⟨bc.record [.served i set.ptr now,
      .presentSent i set.resultSetId g.databases g.query], f, .present i set g, none⟩
  | .present i _ _, .presented (some response) =>
    some ⟨bc, f, .release (some i) .done, some (.present response)⟩
  | .present i _ _, .presented none =>
    some ⟨bc, f, .remove (some i) .done, some (.presentDiagnostic .temporarySystemError
      "session_shared: target closed connection during present")⟩
  | .scan, .go =>
    match bc.leastRecentlyUsed with
    | some b => some ⟨bc.useBackend client b.id, f, .scanTimestamp b.id, none⟩
    | none => some ⟨bc.beginCreate client, f, .create .scan, none⟩
  | .scanTimestamp i, .go => some (timestampStep now bc f i (.scanMove i))
  | .scanMove i, .scanned true response =>
    some ⟨bc, f, .remove (some i) .closed, some (.scan response)⟩
  | .scanMove i, .scanned false response =>
    some ⟨bc, f, .release (some i) .done, some (.scan response)⟩
  | .release (some i) next, .go => some (next.after (bc.releaseBackend client i) f)
  | .release none _, .go => some ⟨bc, f, .crashed, none⟩
  | .remove (some i) next, .go => some (next.after (bc.removeBackend client i) f)
  | .remove none next, .go => some (next.after bc f)
  | _, _ => none

end SessionShared
end Metaproxy
