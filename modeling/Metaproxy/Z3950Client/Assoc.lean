import Metaproxy.FrontendNet.Forwarded
import Metaproxy.Lib.Exchange
import Metaproxy.Z3950
import Metaproxy.Z3950Client.Rep

/-!
# Z3950Client.Assoc

`send_and_receive` of `filter_z3950_client.cpp` with all that goes over the connections, on top of
the table of `Z3950Client.Rep`: what is sent, what the targets send and when, and what the events of
a connection make of the package that it works for. A run of this system is one of the table
(`table_of_reach`).

What a target sends waits until a package is in `send_and_receive`: nobody else looks at the socket.
-/

namespace Metaproxy
namespace Z3950Client

open Lib
open Z3950 (DefaultDiagFormat DiagRec Records SearchResponse PresentResponse)

/-! ## What a target sends -/

inductive DiagnosticFormatS where
  | defaultDiagRec (d : DefaultDiagFormat)
  | explicitDiagnostic (encoding : List UInt8)
deriving DecidableEq, Repr

inductive OtherInformationUnit where
  | diag1 (elements : List DiagnosticFormatS)
  | other (encoding : List UInt8)
deriving DecidableEq, Repr

inductive UserInformation where
  | userInfo1 (list : List OtherInformationUnit)
  | other (encoding : List UInt8)
deriving DecidableEq, Repr

inductive Answer (ρ : Type*) where
  | init (userInformationField : Option UserInformation) (encoding : List UInt8)
  | search (res : SearchResponse ρ)
  | present (res : PresentResponse ρ)
  | other (encoding : List UInt8)
deriving DecidableEq, Repr

variable {OtherInfo ρ : Type*}

/-- The host in brackets, after what is there. -/
def fixupNsd (host : String) (d : DefaultDiagFormat) : DefaultDiagFormat :=
  { d with
    addinfo := (if d.addinfo = [] then [] else d.addinfo ++ [' ']) ++
      "(backend=".toList ++ host.toList ++ [')'] }

def fixupDiagRec (host : String) : DiagRec → DiagRec
  | .defaultFormat d => .defaultFormat (fixupNsd host d)
  | .externallyDefined encoding => .externallyDefined encoding

/-- `fixup_nsd` of the records. -/
def fixupRecords (host : String) : Records ρ → Records ρ
  | .databaseOrSurDiagnostics l => .databaseOrSurDiagnostics l
  | .nonSurrogateDiagnostic d => .nonSurrogateDiagnostic (fixupNsd host d)
  | .multipleNonSurDiagnostics ds => .multipleNonSurDiagnostics (ds.map (fixupDiagRec host))

def fixupElement (host : String) : DiagnosticFormatS → DiagnosticFormatS
  | .defaultDiagRec d => .defaultDiagRec (fixupNsd host d)
  | .explicitDiagnostic encoding => .explicitDiagnostic encoding

def fixupUnit (host : String) : OtherInformationUnit → OtherInformationUnit
  | .diag1 elements => .diag1 (elements.map (fixupElement host))
  | .other encoding => .other encoding

def fixupInit (host : String) : UserInformation → UserInformation
  | .userInfo1 list => .userInfo1 (list.map (fixupUnit host))
  | .other encoding => .other encoding

def Answer.fixup (host : String) : Answer ρ → Answer ρ
  | .init uif encoding => .init (uif.map (fixupInit host)) encoding
  | .search res => .search { res with records := res.records.map (fixupRecords host) }
  | .present res => .present { res with records := res.records.map (fixupRecords host) }
  | .other encoding => .other encoding

def Answer.isInit : Answer ρ → Bool
  | .init _ _ => true
  | _ => false

/-! ### The diagnostics that are not part of a record -/

def DiagRec.diagnostic? : DiagRec → Option DefaultDiagFormat
  | .defaultFormat d => some d
  | .externallyDefined _ => none

def recordsDiagnostics : Records ρ → List DefaultDiagFormat
  | .databaseOrSurDiagnostics _ => []
  | .nonSurrogateDiagnostic d => [d]
  | .multipleNonSurDiagnostics ds => ds.filterMap DiagRec.diagnostic?

def DiagnosticFormatS.diagnostic? : DiagnosticFormatS → Option DefaultDiagFormat
  | .defaultDiagRec d => some d
  | .explicitDiagnostic _ => none

def OtherInformationUnit.diagnostics : OtherInformationUnit → List DefaultDiagFormat
  | .diag1 elements => elements.filterMap DiagnosticFormatS.diagnostic?
  | .other _ => []

def UserInformation.diagnostics : UserInformation → List DefaultDiagFormat
  | .userInfo1 list => list.flatMap OtherInformationUnit.diagnostics
  | .other _ => []

def Answer.diagnostics : Answer ρ → List DefaultDiagFormat
  | .init uif _ => uif.toList.flatMap UserInformation.diagnostics
  | .search res => res.records.toList.flatMap recordsDiagnostics
  | .present res => res.records.toList.flatMap recordsDiagnostics
  | .other _ => []

theorem recordsDiagnostics_fixup (host : String) (r : Records ρ) :
    recordsDiagnostics (fixupRecords host r) = (recordsDiagnostics r).map (fixupNsd host) := by
  cases r with
  | databaseOrSurDiagnostics l => rfl
  | nonSurrogateDiagnostic d => rfl
  | multipleNonSurDiagnostics ds =>
    show (ds.map (fixupDiagRec host)).filterMap _ = (ds.filterMap _).map _
    rw [List.filterMap_map, List.map_filterMap]
    refine List.filterMap_congr ?_
    intro d _
    cases d <;> rfl

theorem OtherInformationUnit.diagnostics_fixup (host : String) (u : OtherInformationUnit) :
    (fixupUnit host u).diagnostics = u.diagnostics.map (fixupNsd host) := by
  cases u with
  | other encoding => rfl
  | diag1 elements =>
    show (elements.map (fixupElement host)).filterMap _ = (elements.filterMap _).map _
    rw [List.filterMap_map, List.map_filterMap]
    refine List.filterMap_congr ?_
    intro d _
    cases d <;> rfl

theorem UserInformation.diagnostics_fixup (host : String) (u : UserInformation) :
    (fixupInit host u).diagnostics = u.diagnostics.map (fixupNsd host) := by
  cases u with
  | other encoding => rfl
  | userInfo1 list =>
    show (list.map (fixupUnit host)).flatMap _ = (list.flatMap _).map _
    rw [List.flatMap_map, List.map_flatMap]
    exact List.flatMap_congr fun u _ => u.diagnostics_fixup host

/-- Every diagnostic names the host after what the target says. -/
theorem Answer.diagnostics_fixup (host : String) (gdu : Answer ρ) :
    (gdu.fixup host).diagnostics = gdu.diagnostics.map (fixupNsd host) := by
  cases gdu with
  | other encoding => rfl
  | init uif encoding =>
    cases uif with
    | none => rfl
    | some u => simp [Answer.fixup, Answer.diagnostics, UserInformation.diagnostics_fixup]
  | search res =>
    cases hrecords : res.records with
    | none => simp [Answer.fixup, Answer.diagnostics, hrecords]
    | some r => simp [Answer.fixup, Answer.diagnostics, hrecords, recordsDiagnostics_fixup]
  | present res =>
    cases hrecords : res.records with
    | none => simp [Answer.fixup, Answer.diagnostics, hrecords]
    | some r => simp [Answer.fixup, Answer.diagnostics, hrecords, recordsDiagnostics_fixup]

/-! ## What is sent -/

inductive Which where
  | close
  | triggerResourceControlRequest
  | other
deriving DecidableEq, Repr

inductive Apdu (OtherInfo : Type*) where
  | init (otherInfo : OtherInfo)
  | other (encoding : List UInt8)
  /-- The close that is made for a session that has been closed. -/
  | finished
deriving DecidableEq, Repr

/-- What is used of YAZ, and the tag of an encoded request. -/
structure Yaz (OtherInfo : Type*) where
  oi : YazOi OtherInfo
  which : List UInt8 → Which
  /-- The string of `yaz_oid_userinfo_client_ip`, and the rest. -/
  takeClientIp : OtherInfo → Option (List Char) × OtherInfo
  setClientIp : OtherInfo → List Char → OtherInfo
  hasCharSetNegotiation : OtherInfo → Bool
  /-- A unit with `yaz_set_proposal_charneg_list`. -/
  addProposal : OtherInfo → String → OtherInfo

/-- What else `configure` sets. -/
structure Settings where
  forceClose : Bool
  clientIp : Bool
  charset : String
  connectTimeout : Int
  initTimeout : Int
  generalTimeout : Int

def setCharsetProposal (yaz : Yaz OtherInfo) (otherInfo : OtherInfo) (charset : String) :
    OtherInfo :=
  if yaz.hasCharSetNegotiation otherInfo then otherInfo else yaz.addProposal otherInfo charset

def fixupClientIp (yaz : Yaz OtherInfo) (origin : Origin) (otherInfo : OtherInfo) : OtherInfo :=
  let peerName1 := yaz.takeClientIp otherInfo
  yaz.setClientIp peerName1.2 (pcomb peerName1.1 origin.getAddress)

/-- What becomes of a request before it is sent. -/
def prepare (yaz : Yaz OtherInfo) (conf : Settings) (origin : Origin) :
    Apdu OtherInfo → Apdu OtherInfo
  | .init otherInfo =>
    let otherInfo :=
      if conf.clientIp ∧ origin.getAddress ≠ [] then fixupClientIp yaz origin otherInfo
      else otherInfo
    .init (if conf.charset = "" then otherInfo else setCharsetProposal yaz otherInfo conf.charset)
  | .other encoding => .other encoding
  | .finished => .finished

def Apdu.isInit : Apdu OtherInfo → Bool
  | .init _ => true
  | _ => false

def Apdu.isClose (yaz : Yaz OtherInfo) : Apdu OtherInfo → Bool
  | .init _ => false
  | .other encoding => decide (yaz.which encoding = .close)
  | .finished => true

/-- Is there a response to wait for? -/
def Apdu.isAnswered (yaz : Yaz OtherInfo) : Apdu OtherInfo → Bool
  | .other encoding => decide (yaz.which encoding ≠ .triggerResourceControlRequest)
  | _ => true

/-- The Z39.50 request of a package. -/
def Gdu.apdu? : Gdu OtherInfo → Option (Apdu OtherInfo)
  | .init otherInfo => some (.init otherInfo)
  | .other encoding => some (.other encoding)
  | .http _ => none

structure Sent (OtherInfo : Type*) where
  package : Nat
  session : Nat
  apdu : Apdu OtherInfo

/-! ## State -/

inductive Connected where
  | no
  | initPhase
  | rest
deriving DecidableEq, Repr

inductive CloseReason where
  | peerAbort
  | lackOfActivity
deriving DecidableEq, Repr

inductive Reply (ρ : Type*) where
  | answer (gdu : Answer ρ)
  | close (reason : CloseReason)
deriving DecidableEq, Repr

/-- The rest of an Assoc, with what has gone over its connection. -/
structure Conn (OtherInfo ρ : Type*) where
  /-- `m_package`. -/
  package : Option Nat
  waiting : Bool
  connected : Connected
  hasClosed : Bool
  timeElapsed : Nat
  sent : List (Sent OtherInfo)
  /-- What of it has a response, and the responses. -/
  exchange : Exchange (Sent OtherInfo) (Answer ρ)

/-- Where a package is in `send_and_receive`. -/
inductive Io (OtherInfo : Type*) where
  | entering
  | connecting (apdu : Apdu OtherInfo)
  | receiving
  | done

structure Work (OtherInfo ρ : Type*) where
  origin : Origin
  io : Io OtherInfo
  response : Option (Reply ρ)
  /-- `m_package->session().close()` has been called. -/
  aborted : Bool

structure St (OtherInfo ρ : Type*) where
  table : State OtherInfo
  conns : Nat → Conn OtherInfo ρ
  works : Nat → Work OtherInfo ρ

def Conn.new : Conn OtherInfo ρ where
  package := none
  waiting := false
  connected := .no
  hasClosed := false
  timeElapsed := 0
  sent := []
  exchange := .new

def Work.new (origin : Origin) : Work OtherInfo ρ where
  origin := origin
  io := .entering
  response := none
  aborted := false

def Work.abort (reason : CloseReason) (w : Work OtherInfo ρ) : Work OtherInfo ρ :=
  { w with
    response := some (.close reason)
    aborted := true }

/-! ## Events

Each makes something of the connection, and something of the package it works for. -/

inductive Event where
  | connect
  | fail
  | timeout
  /-- So many responses more than one come at once. -/
  | receive (more : Nat)
deriving DecidableEq, Repr

def Settings.limit (conf : Settings) : Connected → Int
  | .no => conf.connectTimeout
  | .initPhase => conf.initTimeout
  | .rest => conf.generalTimeout

namespace Conn

def connectNotify (c : Conn OtherInfo ρ) : Conn OtherInfo ρ :=
  { c with
    waiting := false
    connected := .initPhase }

def failNotify (c : Conn OtherInfo ρ) : Conn OtherInfo ρ × (Work OtherInfo ρ → Work OtherInfo ρ) :=
  ({ c with waiting := false }, Work.abort .peerAbort)

def timeoutNotify (conf : Settings) (c : Conn OtherInfo ρ) :
    Conn OtherInfo ρ × (Work OtherInfo ρ → Work OtherInfo ρ) :=
  if conf.limit c.connected ≤ ((c.timeElapsed + 1 : Nat) : Int) then
    ({ c with
        timeElapsed := c.timeElapsed + 1
        waiting := false },
      Work.abort (if c.connected = .rest then .lackOfActivity else .peerAbort))
  else ({ c with timeElapsed := c.timeElapsed + 1 }, id)

/-- `recv_GDU`; without a package the response is not looked at. -/
def recvGDU (host : String) (gdu : Answer ρ) (c : Conn OtherInfo ρ) :
    Conn OtherInfo ρ × (Work OtherInfo ρ → Work OtherInfo ρ) :=
  ({ c with
      waiting := false
      connected := if c.package.isSome && gdu.isInit then .rest else c.connected
      exchange := c.exchange.take },
    fun w => { w with response := some (.answer (gdu.fixup host)) })

def recvAll (host : String) : List (Answer ρ) → Conn OtherInfo ρ →
    Conn OtherInfo ρ × (Work OtherInfo ρ → Work OtherInfo ρ)
  | [], c => (c, id)
  | gdu :: gdus, c =>
    let r := c.recvGDU host gdu
    let r' := recvAll host gdus r.1
    (r'.1, r'.2 ∘ r.2)

/-- `processEvent`, for the events that can happen. -/
def processEvent (conf : Settings) (host : String) (c : Conn OtherInfo ρ) :
    Event → Option (Conn OtherInfo ρ × (Work OtherInfo ρ → Work OtherInfo ρ))
  | .connect => if c.connected = .no then some (c.connectNotify, id) else none
  | .fail => some c.failNotify
  | .timeout => some (c.timeoutNotify conf)
  | .receive more =>
    if more < c.exchange.pending.length then
      some (recvAll host (c.exchange.pending.take (more + 1)) c)
    else none

/-- Up to the wait for a response. -/
def send (yaz : Yaz OtherInfo) (s : Sent OtherInfo) (c : Conn OtherInfo ρ) :
    Conn OtherInfo ρ × Io OtherInfo :=
  let c := { c with
    timeElapsed := 0
    waiting := true
    sent := c.sent ++ [s] }
  if s.apdu.isAnswered yaz then ({ c with exchange := c.exchange.ask s }, .receiving)
  else (c, .done)

end Conn

/-! ## `send_and_receive` -/

/-- The request made for a session that has been closed takes the place of the own one. -/
def Package.isForced (package : Package OtherInfo) (conf : Settings) (c : Conn OtherInfo ρ) :
    Bool :=
  package.closed && decide (c.connected ≠ .no) && !c.hasClosed && conf.forceClose

def Package.apdu? (package : Package OtherInfo) (forced : Bool) : Option (Apdu OtherInfo) :=
  if forced then some .finished else package.request.bind Gdu.apdu?

def Package.sends (package : Package OtherInfo) (yaz : Yaz OtherInfo) (conf : Settings)
    (origin : Origin) (p : Nat) (apdu : Apdu OtherInfo) : Sent OtherInfo :=
  ⟨p, package.session, prepare yaz conf origin apdu⟩

/-- Up to the first wait. -/
def Package.enter (package : Package OtherInfo) (yaz : Yaz OtherInfo) (conf : Settings) (p : Nat)
    (clientFails : Bool) (c : Conn OtherInfo ρ) (w : Work OtherInfo ρ) :
    Conn OtherInfo ρ × Work OtherInfo ρ :=
  let forced := package.isForced conf c
  let c := { c with package := if forced then none else some p }
  match package.apdu? forced with
  | none => (c, { w with io := .done })
  | some apdu =>
    let c := { c with
      hasClosed := c.hasClosed || apdu.isClose yaz
      timeElapsed := 0
      waiting := true }
    if c.connected = .no then
      if clientFails then (c, { w.abort .peerAbort with io := .done })
      else (c, { w with io := .connecting apdu })
    else
      let r := c.send yaz (package.sends yaz conf w.origin p apdu)
      (r.1, { w with io := r.2 })

/-- A wait is over. -/
def Package.leave (package : Package OtherInfo) (yaz : Yaz OtherInfo) (conf : Settings) (p : Nat)
    (c : Conn OtherInfo ρ) (w : Work OtherInfo ρ) : Conn OtherInfo ρ × Work OtherInfo ρ :=
  match w.io with
  | .connecting apdu =>
    if c.connected = .no then (c, { w with io := .done })
    else
      let r := c.send yaz (package.sends yaz conf w.origin p apdu)
      (r.1, { w with io := r.2 })
  | _ => (c, { w with io := .done })

def Io.waits : Io OtherInfo → Bool
  | .connecting _ => true
  | .receiving => true
  | _ => false

/-! ## Steps -/

inductive IoLabel (OtherInfo ρ : Type*) where
  | arrive (p : Nat) (package : Package OtherInfo) (origin : Origin)
  | wake (p : Nat)
  | timedWake (p : Nat) (inTime : Bool)
  | enter (p : Nat) (clientFails : Bool)
  | event (p : Nat) (e : Event)
  | leave (p : Nat)
  /-- `processEvent` fails. -/
  | stop (p : Nat)
  | finish (p : Nat)
  | release (p : Nat)
  /-- A target sends something. -/
  | answer (assoc : Nat) (gdu : Answer ρ)

namespace St

variable (s : St OtherInfo ρ)

/-- The package in `send_and_receive`, the address of its Assoc, and the Assoc. -/
def inside (p : Nat) : Option (Package OtherInfo × Nat × Assoc) :=
  match s.table.packages.lookup p with
  | some ⟨package, .inside assoc⟩ =>
    (s.table.assocs.lookup assoc).map fun as => (package, assoc, as)
  | _ => none

def set (assoc p : Nat) (r : Conn OtherInfo ρ × Work OtherInfo ρ) : St OtherInfo ρ :=
  { s with
    conns := Function.update s.conns assoc r.1
    works := Function.update s.works p r.2 }

/-- What an event makes of a connection and of its package. -/
def notify (assoc : Nat) (r : Conn OtherInfo ρ × (Work OtherInfo ρ → Work OtherInfo ρ)) :
    St OtherInfo ρ :=
  { s with
    conns := Function.update s.conns assoc r.1
    works :=
      match (s.conns assoc).package with
      | some q => Function.update s.works q (r.2 (s.works q))
      | none => s.works }

/-- A step of the table alone. -/
def move (t : Option (State OtherInfo)) : Option (St OtherInfo ρ) :=
  t.map fun t => { s with table := t }

end St

def ioStep (yaz : Yaz OtherInfo) (rep : Rep) (conf : Settings) (s : St OtherInfo ρ) :
    IoLabel OtherInfo ρ → Option (St OtherInfo ρ)
  | .arrive p package origin =>
    (step yaz.oi rep s.table (.arrive p package)).map fun t =>
      { s with
        table := t
        works := Function.update s.works p (.new origin) }
  | .wake p => s.move (step yaz.oi rep s.table (.wake p))
  | .timedWake p inTime => s.move (step yaz.oi rep s.table (.timedWake p inTime))
  | .enter p clientFails =>
    (s.inside p).bind fun (package, assoc, as) =>
      match (s.works p).io with
      | .entering =>
        some (s.set assoc p (
          if as.destroyed then (s.conns assoc, { s.works p with io := .done })
          else package.enter yaz conf p clientFails (s.conns assoc) (s.works p)))
      | _ => none
  | .event p e =>
    (s.inside p).bind fun (_, assoc, as) =>
      if (s.works p).io.waits && (s.conns assoc).waiting && !as.destroyed then
        ((s.conns assoc).processEvent conf as.host e).map (s.notify assoc)
      else none
  | .leave p =>
    (s.inside p).bind fun (package, assoc, as) =>
      if (s.works p).io.waits && (!(s.conns assoc).waiting || as.destroyed) then
        some (s.set assoc p (package.leave yaz conf p (s.conns assoc) (s.works p)))
      else none
  | .stop p =>
    (s.inside p).bind fun (package, assoc, as) =>
      if (s.works p).io.waits && (s.conns assoc).waiting && !as.destroyed then
        some (s.set assoc p (package.leave yaz conf p (s.conns assoc) (s.works p)))
      else none
  | .finish p =>
    match (s.works p).io with
    | .done => s.move (step yaz.oi rep s.table (.sendAndReceive p (s.works p).aborted))
    | _ => none
  | .release p => s.move (step yaz.oi rep s.table (.release p))
  | .answer assoc gdu =>
    if (s.conns assoc).connected = .no then none
    else
      some { s with
        conns := Function.update s.conns assoc
          { s.conns assoc with exchange := (s.conns assoc).exchange.answer gdu } }

def St.start : St OtherInfo ρ where
  table := .start
  conns _ := .new
  works _ := .new .new

def ioInit (s : St OtherInfo ρ) : Prop := s = St.start

theorem ioInit_start : ioInit (St.start : St OtherInfo ρ) := rfl

/-! ## The table -/

/-- The step of the table that a step is. -/
def IoLabel.table? (s : St OtherInfo ρ) : IoLabel OtherInfo ρ → Option (Label OtherInfo)
  | .arrive p package _ => some (.arrive p package)
  | .wake p => some (.wake p)
  | .timedWake p inTime => some (.timedWake p inTime)
  | .finish p => some (.sendAndReceive p (s.works p).aborted)
  | .release p => some (.release p)
  | _ => none

section

variable {yaz : Yaz OtherInfo} {rep : Rep} {conf : Settings} {s s' : St OtherInfo ρ}

theorem St.move_eq_some {t : Option (State OtherInfo)} (h : s.move t = some s') :
    t = some s'.table := by
  obtain ⟨t, rfl, rfl⟩ := Option.map_eq_some_iff.mp h
  rfl

theorem ioStep_table {a : IoLabel OtherInfo ρ} (h : ioStep yaz rep conf s a = some s') :
    (∃ b, a.table? s = some b ∧ step yaz.oi rep s.table b = some s'.table) ∨
      s'.table = s.table := by
  cases a with
  | arrive p package origin =>
    obtain ⟨t, htable, rfl⟩ := Option.map_eq_some_iff.mp h
    exact .inl ⟨_, rfl, htable⟩
  | wake p => exact .inl ⟨_, rfl, St.move_eq_some h⟩
  | timedWake p inTime => exact .inl ⟨_, rfl, St.move_eq_some h⟩
  | release p => exact .inl ⟨_, rfl, St.move_eq_some h⟩
  | finish p =>
    rw [ioStep] at h
    split at h
    · exact .inl ⟨_, rfl, St.move_eq_some h⟩
    · cases h
  | enter p clientFails =>
    obtain ⟨⟨package, assoc, as⟩, -, h⟩ := Option.bind_eq_some_iff.mp h
    dsimp only at h
    split at h
    · cases h
      exact .inr rfl
    · cases h
  | event p e =>
    obtain ⟨⟨package, assoc, as⟩, -, h⟩ := Option.bind_eq_some_iff.mp h
    dsimp only at h
    split at h
    · obtain ⟨r, -, rfl⟩ := Option.map_eq_some_iff.mp h
      exact .inr rfl
    · cases h
  | leave p =>
    obtain ⟨⟨package, assoc, as⟩, -, h⟩ := Option.bind_eq_some_iff.mp h
    dsimp only at h
    split at h
    · cases h
      exact .inr rfl
    · cases h
  | stop p =>
    obtain ⟨⟨package, assoc, as⟩, -, h⟩ := Option.bind_eq_some_iff.mp h
    dsimp only at h
    split at h
    · cases h
      exact .inr rfl
    · cases h
  | answer assoc gdu =>
    rw [ioStep] at h
    split at h
    · cases h
    · cases h
      exact .inr rfl

/-- What goes over the connections is more than the table, and nothing else. -/
theorem table_of_reach {ok : State OtherInfo → Label OtherInfo → Prop}
    (h : Reach (ioStep yaz rep conf) ioInit
      (fun s a => ∀ b, a.table? s = some b → ok s.table b) s) :
    Reach (step yaz.oi rep) init ok s.table := by
  refine Reach.invariant
    (I := fun s : St OtherInfo ρ => Reach (step yaz.oi rep) init ok s.table) ?_ ?_ h
  · rintro s rfl
    exact .start rfl
  · intro s a s' hreach hok hstep
    rcases ioStep_table hstep with ⟨b, hb, htable⟩ | heq
    · exact hreach.next (hok b hb) htable
    · rw [heq]
      exact hreach

end

end Z3950Client
end Metaproxy
