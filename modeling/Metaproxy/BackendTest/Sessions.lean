import Mathlib.Data.Finset.Basic
import Metaproxy.BackendTest

/-!
# BackendTest.Sessions

`process` of `filter_backend_test.cpp`, for packages of any sessions in any order. The table has the
sessions that are open by what has come before (`mem_sessions_iff`), and only a client that does not
keep to them is told so (`noInit_iff`). The records that a search brings along are those that a
present of the first records gives (`search_records`).
-/

namespace Metaproxy
namespace BackendTest

open Z3950

structure InitRequest where
  /-- The bits that are set. -/
  options : List Nat
  protocolVersion : List Nat
  preferredMessageSize : Int
  maximumRecordSize : Int
deriving DecidableEq, Repr

structure InitResponse where
  options : List Nat
  protocolVersion : List Nat
  preferredMessageSize : Int
  maximumRecordSize : Int
  implementationName : String
deriving DecidableEq, Repr

inductive Request where
  | init (req : InitRequest)
  | search (req : SearchRequest)
  | present (req : PresentRequest)
  | close
  /-- Another APDU, such as a scan. -/
  | other
deriving DecidableEq, Repr

inductive CloseReason where
  | finished
  | protocolError
deriving DecidableEq, Repr

inductive Response where
  | init (res : InitResponse)
  | search (res : SearchResponse NamePlusRecord)
  /-- A search response with `YAZ_BIB1_RESULT_SET_NAMING_UNSUPP`. -/
  | resultSetNamingUnsupp
  | present (res : PresentResponse NamePlusRecord)
  | close (reason : CloseReason) (text : String)
deriving DecidableEq, Repr

/-- `request` is `none` when there is no Z39.50 request. -/
structure Package where
  session : Nat
  closed : Bool
  request : Option Request
deriving DecidableEq, Repr

structure Rep where
  supportNamedResultSets : Bool
  sessions : Finset Nat
deriving DecidableEq

/-- What becomes of a package: the response, unless it moves on, and whether its session is closed
then. -/
structure Outcome where
  response : Option Response
  closed : Bool
deriving DecidableEq, Repr

/-! ## Requests -/

namespace Options

def search : Nat := 0

def present : Nat := 1

def namedResultSets : Nat := 14

end Options

def masks : List Nat := [Options.search, Options.present, Options.namedResultSets]

/-- Versions 1 to 3, as bits. -/
def versions : List Nat := [0, 1, 2]

/-- The versions end with the first that the client does not have. -/
def initResponse (req : InitRequest) : InitResponse where
  options := masks.filter (· ∈ req.options)
  protocolVersion := versions.takeWhile (· ∈ req.protocolVersion)
  preferredMessageSize := req.preferredMessageSize
  maximumRecordSize := req.maximumRecordSize
  implementationName := "backend_test"

/-- The records that a search response brings along, at most. -/
def piggybackNumber (req : SearchRequest) : Int :=
  Util.piggyback req.smallSetUpperBound req.largeSetLowerBound req.mediumSetPresentNumber
    resultSetSize

def piggybackElementSetNames (req : SearchRequest) : Option ElementSetNames :=
  if piggybackNumber req > req.smallSetUpperBound then req.mediumSetElementSetNames
  else req.smallSetElementSetNames

def searchFetched : Except (Bib1 × List Char) Fetched → SearchResponse NamePlusRecord
  | .error (d, addinfo) => { SearchResponse.diagnostic d addinfo with resultCount := resultSetSize }
  | .ok f =>
    { resultCount := resultSetSize
      numberOfRecordsReturned := f.numberReturned
      nextResultSetPosition := f.nextPosition
      searchStatus := true
      records := some (.databaseOrSurDiagnostics f.records) }

def search (req : SearchRequest) : SearchResponse NamePlusRecord :=
  if piggybackNumber req ≠ 0 then
    searchFetched (fetch req.preferredRecordSyntax (piggybackElementSetNames req) 1
      (Util.toInt (piggybackNumber req)))
  else ⟨resultSetSize, 0, 0, true, none⟩

def noInit : Outcome := ⟨some (.close .protocolError "no init for filter_backend_test"), true⟩

/-- What a request gets; an init also opens its session. -/
def answer (rep : Rep) (p : Package) : Request → Rep × Outcome
  | .init req =>
    let supportNamedResultSets :=
      rep.supportNamedResultSets || decide (Options.namedResultSets ∈ req.options)
    (⟨supportNamedResultSets, insert p.session rep.sessions⟩,
      ⟨some (.init (initResponse req)), p.closed⟩)
  | req =>
    if p.session ∉ rep.sessions then (rep, noInit)
    else
      match req with
      | .search req =>
        if !rep.supportNamedResultSets && req.resultSetName ≠ "default" then
          (rep, ⟨some .resultSetNamingUnsupp, p.closed⟩)
        else (rep, ⟨some (.search (search req)), p.closed⟩)
      | .present req => (rep, ⟨some (.present (present req)), p.closed⟩)
      | .close => (rep, ⟨some (.close .finished ""), true⟩)
      | _ => (rep, ⟨some (.close .protocolError "backend_test: unhandled APDU"), true⟩)

/-- A present with a composition that is not simple is answered by a `return` of its own, before the
session of the package is looked at. -/
def returnsEarly (rep : Rep) (p : Package) : Bool :=
  decide (p.session ∈ rep.sessions) &&
    match p.request with
    | some (.present { recordComposition := some (.complex _), .. }) => true
    | _ => false

def process (rep : Rep) (p : Package) : Rep × Outcome :=
  let answered :=
    match p.request with
    | none => (rep, ⟨none, p.closed⟩)
    | some req => answer rep p req
  if answered.2.closed && !returnsEarly rep p then
    ({ answered.1 with sessions := answered.1.sessions.erase p.session }, answered.2)
  else answered

/-- After some packages, the first first. -/
def run (history : List Package) : Rep :=
  history.foldl (fun rep p => (process rep p).1) ⟨false, ∅⟩

/-! ## Open sessions -/

def Package.isInit (p : Package) : Bool :=
  match p.request with
  | some (.init _) => true
  | _ => false

/-- An open session stays open. -/
def Package.keeps (p : Package) : Bool :=
  match p.request with
  | some (.present { recordComposition := some (.complex _), .. }) => true
  | some .close => false
  | some .other => false
  | _ => !p.closed

/-- There has been an init, and nothing since then that closes the session. -/
def Open (history : List Package) (session : Nat) : Prop :=
  ∃ before p after, history = before ++ p :: after ∧ p.session = session ∧ p.isInit = true ∧
    p.closed = false ∧ ∀ q ∈ after, q.session = session → q.keeps = true

variable {rep : Rep} {history : List Package} {p : Package} {session : Nat}

/-- What is answered before the session is released. -/
def answered (rep : Rep) (p : Package) : Rep × Outcome :=
  match p.request with
  | none => (rep, ⟨none, p.closed⟩)
  | some req => answer rep p req

theorem process_eq (rep : Rep) (p : Package) :
    process rep p =
      if (answered rep p).2.closed && !returnsEarly rep p then
        ({ (answered rep p).1 with sessions := (answered rep p).1.sessions.erase p.session },
          (answered rep p).2)
      else answered rep p := rfl

/-- Only an init changes the table, and only its own session. -/
theorem answered_sessions (rep : Rep) (p : Package) :
    (answered rep p).1.sessions =
      if p.isInit then insert p.session rep.sessions else rep.sessions := by
  obtain ⟨session, closed, request⟩ := p
  cases request with
  | none => rfl
  | some req =>
    cases req with
    | init req => rfl
    | search req =>
      simp only [answered, answer, Package.isInit]
      split
      · rfl
      · split <;> rfl
    | present req =>
      simp only [answered, answer, Package.isInit]
      split <;> rfl
    | close =>
      simp only [answered, answer, Package.isInit]
      split <;> rfl
    | other =>
      simp only [answered, answer, Package.isInit]
      split <;> rfl

/-- When the package of an open session releases it. -/
theorem released_open (h : p.session ∈ rep.sessions) (hinit : p.isInit = false) :
    ((answered rep p).2.closed && !returnsEarly rep p) = !p.keeps := by
  obtain ⟨session, closed, request⟩ := p
  have hopen : ¬ session ∉ rep.sessions := fun hno => hno h
  have hmem : session ∈ rep.sessions := h
  cases request with
  | none => simp [answered, returnsEarly, Package.keeps]
  | some req =>
    cases req with
    | init req => cases hinit
    | search req =>
      simp only [answered, answer, returnsEarly, Package.keeps, if_neg hopen]
      split <;> simp
    | present req =>
      obtain ⟨resultSetId, start, number, syntax_, composition⟩ := req
      simp only [answered, answer, returnsEarly, Package.keeps, hmem, decide_true, Bool.true_and]
      cases composition with
      | none => simp
      | some composition => cases composition <;> simp
    | close => simp [answered, answer, returnsEarly, Package.keeps, hmem]
    | other => simp [answered, answer, returnsEarly, Package.keeps, hmem]

theorem released_init (hinit : p.isInit = true) :
    ((answered rep p).2.closed && !returnsEarly rep p) = p.closed := by
  obtain ⟨session, closed, request⟩ := p
  cases request with
  | none => cases hinit
  | some req =>
    cases req with
    | init req => simp [answered, answer, returnsEarly]
    | search req => cases hinit
    | present req => cases hinit
    | close => cases hinit
    | other => cases hinit

/-- A package opens its session, keeps it open or closes it, and leaves the others alone. -/
theorem process_sessions (rep : Rep) (p : Package) (session : Nat) :
    session ∈ (process rep p).1.sessions ↔
      if p.session ≠ session then session ∈ rep.sessions
      else if p.isInit then p.closed = false
      else session ∈ rep.sessions ∧ p.keeps = true := by
  rw [process_eq]
  by_cases hsession : p.session = session
  · subst hsession
    rw [if_neg (not_not.mpr rfl)]
    cases hinit : p.isInit with
    | true =>
      rw [released_init hinit, if_pos rfl]
      cases hclosed : p.closed with
      | true => simp
      | false => simp [answered_sessions, hinit]
    | false =>
      rw [if_neg Bool.false_ne_true]
      by_cases hmem : p.session ∈ rep.sessions
      · rw [released_open hmem hinit]
        cases hkeeps : p.keeps with
        | true => simp [answered_sessions, hinit, hmem]
        | false => simp
      · split <;> simp [answered_sessions, hinit, hmem]
  · rw [if_pos hsession]
    have hne : session ≠ p.session := Ne.symm hsession
    split <;> cases hinit : p.isInit <;> simp [answered_sessions, hinit, hne]

/-- The init is the last package, or there is one before it and the last package keeps the session
open. -/
theorem open_concat (history : List Package) (p : Package) (session : Nat) :
    Open (history ++ [p]) session ↔
      p.session = session ∧ p.isInit = true ∧ p.closed = false ∨
        Open history session ∧ (p.session = session → p.keeps = true) := by
  constructor
  · rintro ⟨before, q, after, hsplit, hq, hinit, hclosed, hafter⟩
    rcases List.eq_nil_or_concat after with rfl | ⟨after, x, rfl⟩
    · obtain ⟨rfl, hlast⟩ := List.append_inj' hsplit rfl
      cases hlast
      exact .inl ⟨hq, hinit, hclosed⟩
    · rw [List.concat_eq_append, ← List.cons_append, ← List.append_assoc] at hsplit
      obtain ⟨rfl, hlast⟩ := List.append_inj' hsplit rfl
      cases hlast
      rw [List.concat_eq_append] at hafter
      refine .inr ⟨⟨before, q, after, rfl, hq, hinit, hclosed, fun r hr => ?_⟩, ?_⟩
      · exact hafter r (List.mem_append_left _ hr)
      · exact hafter p (List.mem_append_right _ (List.mem_singleton_self p))
  · rintro (⟨hsession, hinit, hclosed⟩ | ⟨⟨before, q, after, rfl, hq, hinit, hclosed, hafter⟩, hp⟩)
    · exact ⟨history, p, [], rfl, hsession, hinit, hclosed, List.forall_mem_nil _⟩
    · refine ⟨before, q, after ++ [p], by simp, hq, hinit, hclosed, fun r hr => ?_⟩
      rcases List.mem_append.mp hr with hr | hr
      · exact hafter r hr
      · rw [List.mem_singleton.mp hr]
        exact hp

/-- An init is not kept when its session is closed already. -/
theorem keeps_of_init (hinit : p.isInit = true) : p.keeps = !p.closed := by
  obtain ⟨session, closed, request⟩ := p
  cases request with
  | none => cases hinit
  | some req =>
    cases req with
    | init req => rfl
    | search req => cases hinit
    | present req => cases hinit
    | close => cases hinit
    | other => cases hinit

/-- The table has the sessions that are open by what has come. -/
theorem mem_sessions_iff (history : List Package) (session : Nat) :
    session ∈ (run history).sessions ↔ Open history session := by
  induction history using List.reverseRecOn with
  | nil =>
    refine iff_of_false (Finset.notMem_empty session) ?_
    rintro ⟨before, p, after, hnil, -⟩
    cases before <;> cases hnil
  | append_singleton history p ih =>
    rw [run, List.foldl_append, List.foldl_cons, List.foldl_nil, ← run, process_sessions,
      open_concat, ih]
    by_cases hsession : p.session = session
    · rw [if_neg (not_not.mpr hsession)]
      cases hinit : p.isInit with
      | true => simp [hsession, keeps_of_init hinit]
      | false => simp [hsession]
    · simp [hsession]

/-- The other sessions do not matter. -/
theorem open_filter (history : List Package) (session : Nat) :
    Open (history.filter (·.session = session)) session ↔ Open history session := by
  induction history using List.reverseRecOn with
  | nil => rfl
  | append_singleton history p ih =>
    rw [List.filter_append, open_concat]
    by_cases hsession : p.session = session
    · have hself : [p].filter (·.session = session) = [p] := by simp [hsession]
      rw [hself, open_concat, ih]
    · have hnone : [p].filter (·.session = session) = [] := by simp [hsession]
      rw [hnone, List.append_nil, ih]
      simp [hsession]

/-- Every package after any others: only a request on a session that is not open is refused. -/
theorem noInit_iff (history : List Package) (p : Package) :
    (process (run history) p).2 = noInit ↔
      ¬ Open history p.session ∧ p.isInit = false ∧ p.request ≠ none := by
  have houtcome : (process (run history) p).2 = (answered (run history) p).2 := by
    rw [process_eq]
    split <;> rfl
  rw [houtcome, ← mem_sessions_iff]
  obtain ⟨session, closed, request⟩ := p
  cases request with
  | none => simp [answered, noInit]
  | some req =>
    cases req with
    | init req => simp [answered, answer, noInit, Package.isInit]
    | search req =>
      simp only [answered, answer, Package.isInit]
      split
      · simp_all
      · split <;> simp_all [noInit]
    | present req =>
      simp only [answered, answer, Package.isInit]
      split <;> simp_all [noInit]
    | close =>
      simp only [answered, answer, Package.isInit]
      split <;> simp_all [noInit]
    | other =>
      simp only [answered, answer, Package.isInit]
      split <;> simp_all [noInit]

/-- Every history of packages: the table has the sessions that are open by it, and a request is
refused exactly when its session is not. -/
theorem refuses_closed (history : List Package) :
    (∀ session, session ∈ (run history).sessions ↔ Open history session) ∧
    ∀ p, (process (run history) p).2 = noInit ↔
      ¬ Open history p.session ∧ p.isInit = false ∧ p.request ≠ none :=
  ⟨mem_sessions_iff history, noInit_iff history⟩

/-! ## Records of a search -/

/-- A search brings along what a present of the first records gives. -/
theorem search_records (req : SearchRequest) (hnumber : piggybackNumber req ≠ 0) :
    let res := search req
    let pres := present
      { resultSetId := req.resultSetName
        resultSetStartPoint := 1
        numberOfRecordsRequested := piggybackNumber req
        preferredRecordSyntax := req.preferredRecordSyntax
        recordComposition := (piggybackElementSetNames req).map .simple }
    res.records = pres.records ∧ res.numberOfRecordsReturned = pres.numberOfRecordsReturned ∧
      res.nextResultSetPosition = pres.nextResultSetPosition := by
  have hone : Util.toInt 1 = 1 := by decide
  dsimp only
  rw [search, if_pos hnumber, present]
  cases hesn : piggybackElementSetNames req with
  | none =>
    simp only [Option.map_none, hone]
    cases fetch req.preferredRecordSyntax none 1 (Util.toInt (piggybackNumber req)) <;>
      exact ⟨rfl, rfl, rfl⟩
  | some esn =>
    simp only [Option.map_some, hone]
    cases fetch req.preferredRecordSyntax (some esn) 1 (Util.toInt (piggybackNumber req)) <;>
      exact ⟨rfl, rfl, rfl⟩

end BackendTest
end Metaproxy
