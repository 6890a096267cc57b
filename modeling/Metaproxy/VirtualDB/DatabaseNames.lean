import Metaproxy.VirtualDB.Combine
import Metaproxy.VirtualDB.Sets
import Metaproxy.Z3950

/-!
# VirtualDB.DatabaseNames

Which database names a client sees in the records of a search or present (`names_shown_iff`).

`fixup_package` gives each record that names a database one of the frontend databases of its
backend: the first that the backend's name is a target of, or else the first. `present` always
calls it. `search` looks at the session first and leaves a response that comes with a closed one as
it is, and so any response that is not one to a search: there the client sees the backend's names
(`closed_search_unchanged`).

The steps here are those of `VirtualDB.Frontend`, with the packages that come back
(`searchPackage_reply`, `presentPackage_reply`).
-/

namespace Metaproxy
namespace VirtualDB

open Lib
open Z3950 (NamePlusRecordList)

structure NamePlusRecord (ρ : Type*) where
  databaseName : Option String
  /-- The other fields. -/
  record : ρ
deriving DecidableEq, Repr

/-- `ξ` is what a response has besides its records. -/
inductive Gdu (ρ ξ : Type*) where
  | searchResponse (records : Option (Z3950.Records (NamePlusRecord ρ))) (rest : ξ)
  | presentResponse (records : Option (Z3950.Records (NamePlusRecord ρ))) (rest : ξ)
  | other (rest : ξ)
deriving DecidableEq, Repr

/-- What comes back from `search_package.move()` and `present_package.move()`. -/
structure PackageAnswer (ρ ξ : Type*) where
  closed : Bool
  response : Option (Gdu ρ ξ)

variable {ρ ξ : Type*} {rep : Rep} {b : Backend}

/-! ## `fixup_package` -/

/-- The loop over the frontend databases. -/
def fixupLoop (rep : Rep) (bDatabase : String) : List String → Option String
  | [] => none
  | db :: databases =>
    match rep.maps.find? fun m => m.match_ rep db with
    | some m => if bDatabase ∈ m.targets then some db else fixupLoop rep bDatabase databases
    | none => fixupLoop rep bDatabase databases

def fixupNprRecord (rep : Rep) (b : Backend) (npr : NamePlusRecord ρ) : NamePlusRecord ρ :=
  match npr.databaseName with
  | none => npr
  | some bDatabase =>
    match fixupLoop rep bDatabase b.frontendDatabases with
    | some db => { npr with databaseName := some db }
    | none =>
      match b.frontendDatabases with
      | [] => npr
      | database :: _ => { npr with databaseName := some database }

/-- The first `num_records` ones. -/
def mapItems {α : Type*} (f : α → α) (l : NamePlusRecordList α) : NamePlusRecordList α where
  numRecords := l.numRecords
  records := l.items.map f ++ l.records.drop l.numRecords.toNat

def mapRecords {α : Type*} (f : α → α) : Option (Z3950.Records α) → Option (Z3950.Records α)
  | some (.databaseOrSurDiagnostics l) => some (.databaseOrSurDiagnostics (mapItems f l))
  | records => records

def fixupNprRecords (rep : Rep) (b : Backend) :
    Option (Z3950.Records (NamePlusRecord ρ)) → Option (Z3950.Records (NamePlusRecord ρ)) :=
  mapRecords (fixupNprRecord rep b)

def fixupPackage (rep : Rep) (b : Backend) : Option (Gdu ρ ξ) → Option (Gdu ρ ξ)
  | some (.presentResponse records rest) =>
    some (.presentResponse (fixupNprRecords rep b records) rest)
  | some (.searchResponse records rest) =>
    some (.searchResponse (fixupNprRecords rep b records) rest)
  | gdu => gdu

/-! ## Requests with their responses -/

/-- No records, or no diagnostics instead of them. -/
def hasSet {α : Type*} : Option (Z3950.Records α) → Bool
  | none => true
  | some (.databaseOrSurDiagnostics _) => true
  | some _ => false

/-- The response of `search`, once the package is back. -/
def searchResponse (rep : Rep) (b : Backend) (answer : PackageAnswer ρ ξ) : Option (Gdu ρ ξ) :=
  if answer.closed then answer.response
  else
    match answer.response with
    | some (.searchResponse records _) =>
      if hasSet records then fixupPackage rep b answer.response else answer.response
    | _ => answer.response

/-- The response of `present`, whether the session is closed or not. -/
def presentResponse (rep : Rep) (b : Backend) (answer : PackageAnswer ρ ξ) : Option (Gdu ρ ξ) :=
  fixupPackage rep b answer.response

/-- What `search` keeps of the answer for the result sets. -/
def PackageAnswer.toSearch (answer : PackageAnswer ρ ξ) : SearchAnswer where
  response :=
    match answer.response with
    | some (.searchResponse none _) => some .none
    | some (.searchResponse (some (.databaseOrSurDiagnostics _)) _) => some .dbosd
    | some (.searchResponse _ _) => some .diagnostics
    | _ => none
  closed := answer.closed

/-- A response of the filter's own, or the one that has come back. -/
inductive Response (ρ ξ : Type*) where
  | own (reply : Reply)
  | backend (gdu : Option (Gdu ρ ξ))

def Response.reply : Response ρ ξ → Reply
  | .own reply => reply
  | .backend _ => .backend

def searchPackage (rep : Rep) (s : St) (req : SearchRequest) (ia : InitAnswer)
    (answer : PackageAnswer ρ ξ) : St × Response ρ ξ :=
  let overrideSet := (s.sets.lookup req.resultSetName).isSome
  if overrideSet && !req.replaceIndicator then
    (s, .own (.searchResponse .resultSetExistsAndReplaceIndicatorOff ""))
  else
    match pickBackend s req.databaseNames overrideSet with
    | some b => ((searchOn rep s b req answer.toSearch).1, .backend (searchResponse rep b answer))
    | none =>
      match initBackend rep s req.databaseNames ia with
      | (s, .error (diag, addinfo)) => (s, .own (.searchResponse diag addinfo))
      | (s, .ok b) =>
        ((searchOn rep s b req answer.toSearch).1, .backend (searchResponse rep b answer))

def presentPackage (rep : Rep) (s : St) (resultSetId : String) (answer : PackageAnswer ρ ξ) :
    St × Response ρ ξ :=
  match s.sets.lookup resultSetId with
  | none => (s, .own (.presentResponse .specifiedResultSetDoesNotExist resultSetId))
  | some set =>
    ((present s resultSetId answer.closed).1, .backend (presentResponse rep set.backend answer))

theorem searchOn_reply (s : St) (req : SearchRequest) (sa : SearchAnswer) :
    (searchOn rep s b req sa).2 = .backend := by
  simp only [searchOn]
  split
  · rfl
  · split <;> rfl

/-- Without the packages these are the requests of `VirtualDB.Frontend`. -/
theorem searchPackage_reply (s : St) (req : SearchRequest) (ia : InitAnswer)
    (answer : PackageAnswer ρ ξ) :
    ((searchPackage rep s req ia answer).1, (searchPackage rep s req ia answer).2.reply) =
      search rep s req ia answer.toSearch := by
  unfold searchPackage search
  by_cases hrefuse : ((s.sets.lookup req.resultSetName).isSome && !req.replaceIndicator) = true
  · rw [if_pos hrefuse, if_pos hrefuse]
    rfl
  · rw [if_neg hrefuse, if_neg hrefuse]
    cases pickBackend s req.databaseNames (s.sets.lookup req.resultSetName).isSome with
    | some b => exact Prod.ext rfl (searchOn_reply s req _).symm
    | none =>
      obtain ⟨s', result⟩ := initBackend rep s req.databaseNames ia
      cases result with
      | error e => rfl
      | ok b => exact Prod.ext rfl (searchOn_reply s' req _).symm

theorem presentPackage_reply (s : St) (resultSetId : String) (answer : PackageAnswer ρ ξ) :
    ((presentPackage rep s resultSetId answer).1,
      (presentPackage rep s resultSetId answer).2.reply) =
      present s resultSetId answer.closed := by
  unfold presentPackage present
  cases s.sets.lookup resultSetId <;> rfl

/-- The backend of a search that is sent. -/
def searchBackend (rep : Rep) (s : St) (req : SearchRequest) (ia : InitAnswer) : Option Backend :=
  let overrideSet := (s.sets.lookup req.resultSetName).isSome
  if overrideSet && !req.replaceIndicator then none
  else
    match pickBackend s req.databaseNames overrideSet with
    | some b => some b
    | none => (initBackend rep s req.databaseNames ia).2.toOption

theorem initBackend_databases {s : St} {databases : List String} {ia : InitAnswer}
    (h : (initBackend rep s databases ia).2 = .ok b) : b.frontendDatabases = databases := by
  simp only [initBackend] at h
  split at h
  · cases h
  · rename_i b' hb'
    have hspec := (createBackend_combines rep (s.globalId + 1) databases).2.1 b' hb'
    split at h
    · cases h
      exact hspec.2.2
    · cases h

/-- With a backend the result sets are as `searchOn` leaves them, without one as they were. -/
theorem search_cases (rep : Rep) (s : St) (req : SearchRequest) (ia : InitAnswer) :
    (searchBackend rep s req ia = none ∧ ∀ sa, (search rep s req ia sa).1.sets = s.sets) ∨
    ∃ b s1, searchBackend rep s req ia = some b ∧ s1.sets = s.sets ∧
      Util.match_ b.frontendDatabases req.databaseNames = true ∧
      (∀ sa, search rep s req ia sa = searchOn rep s1 b req sa) ∧
      ∀ answer : PackageAnswer ρ ξ, (searchPackage rep s req ia answer).2 =
        .backend (searchResponse rep b answer) := by
  unfold searchBackend search searchPackage
  by_cases hrefuse : ((s.sets.lookup req.resultSetName).isSome && !req.replaceIndicator) = true
  · rw [if_pos hrefuse]
    refine .inl ⟨rfl, fun sa => ?_⟩
    rw [if_pos hrefuse]
  · simp only [if_neg hrefuse]
    cases hpick : pickBackend s req.databaseNames (s.sets.lookup req.resultSetName).isSome with
    | some b =>
      rw [pickBackend] at hpick
      have hfound := List.find?_some hpick
      exact .inr ⟨b, s, rfl, rfl, (Bool.and_eq_true_iff.mp hfound).1, fun _ => rfl, fun _ => rfl⟩
    | none =>
      have hsets := (initBackend_grows rep s req.databaseNames ia).1.sets
      have hspec : ∀ b, (initBackend rep s req.databaseNames ia).2 = .ok b →
          b.frontendDatabases = req.databaseNames := fun b => initBackend_databases
      cases hinit : initBackend rep s req.databaseNames ia with
      | mk s1 result =>
        rw [hinit] at hsets hspec
        cases result with
        | error e => exact .inl ⟨rfl, fun _ => hsets⟩
        | ok b =>
          refine .inr ⟨b, s1, rfl, hsets, ?_, fun _ => rfl, fun _ => rfl⟩
          rw [hspec b rfl]
          exact Util.match_refl _

/-! ## The names shown -/

/-- The first frontend database whose first map has the target, or else the first of all. -/
def shownName (rep : Rep) (b : Backend) (bDatabase : String) : String :=
  (b.frontendDatabases.find? fun db => (rep.firstMap db).any fun m => bDatabase ∈ m.targets).getD
    (b.frontendDatabases.headD bDatabase)

def shown (rep : Rep) (b : Backend) (npr : NamePlusRecord ρ) : NamePlusRecord ρ :=
  { npr with databaseName := npr.databaseName.map (shownName rep b) }

def Gdu.mapNpr (f : NamePlusRecord ρ → NamePlusRecord ρ) : Gdu ρ ξ → Gdu ρ ξ
  | .searchResponse records rest => .searchResponse (mapRecords f records) rest
  | .presentResponse records rest => .presentResponse (mapRecords f records) rest
  | .other rest => .other rest

/-- The client gets what has come back, with the names that are for it. -/
def Shown (rep : Rep) (b : Backend) (back client : Option (Gdu ρ ξ)) : Prop :=
  client = back.map (Gdu.mapNpr (shown rep b))

theorem shownName_mem (hne : b.frontendDatabases ≠ []) (bDatabase : String) :
    shownName rep b bDatabase ∈ b.frontendDatabases := by
  rw [shownName]
  cases hfind : b.frontendDatabases.find? fun db =>
      (rep.firstMap db).any fun m => bDatabase ∈ m.targets with
  | some db => exact List.mem_of_find?_eq_some hfind
  | none =>
    cases hdatabases : b.frontendDatabases with
    | nil => exact absurd hdatabases hne
    | cons db databases => exact List.mem_cons_self

theorem fixupLoop_eq (rep : Rep) (bDatabase : String) (databases : List String) :
    fixupLoop rep bDatabase databases =
      databases.find? fun db => (rep.firstMap db).any fun m => bDatabase ∈ m.targets := by
  induction databases with
  | nil => rfl
  | cons db databases ih =>
    rw [fixupLoop, List.find?_cons, ih, Rep.firstMap]
    cases rep.maps.find? fun m => m.match_ rep db with
    | none => rfl
    | some m =>
      by_cases hmem : bDatabase ∈ m.targets
      · simp [hmem]
      · simp [hmem]

theorem fixupNprRecord_eq (rep : Rep) (b : Backend) (npr : NamePlusRecord ρ) :
    fixupNprRecord rep b npr = shown rep b npr := by
  obtain ⟨name, record⟩ := npr
  cases name with
  | none => rfl
  | some bDatabase =>
    simp only [fixupNprRecord, shown, shownName, fixupLoop_eq, Option.map_some]
    cases b.frontendDatabases.find? fun db =>
        (rep.firstMap db).any fun m => bDatabase ∈ m.targets with
    | some db => rfl
    | none => cases b.frontendDatabases <;> rfl

theorem fixupPackage_eq (rep : Rep) (b : Backend) (gdu : Option (Gdu ρ ξ)) :
    fixupPackage rep b gdu = gdu.map (Gdu.mapNpr (shown rep b)) := by
  have hfixup : fixupNprRecord (ρ := ρ) rep b = shown rep b := funext (fixupNprRecord_eq rep b)
  cases gdu with
  | none => rfl
  | some gdu =>
    cases gdu with
    | searchResponse records rest => simp only [fixupPackage, fixupNprRecords, hfixup]; rfl
    | presentResponse records rest => simp only [fixupPackage, fixupNprRecords, hfixup]; rfl
    | other rest => rfl

/-- `present` shows the names that are for the client. -/
theorem presentResponse_shown (rep : Rep) (b : Backend) (answer : PackageAnswer ρ ξ) :
    Shown rep b answer.response (presentResponse rep b answer) :=
  fixupPackage_eq rep b answer.response

theorem ne_nil_of_match {databases : List String}
    (h : Util.match_ b.frontendDatabases databases = true) (hne : databases ≠ []) :
    b.frontendDatabases ≠ [] := by
  intro hnil
  have hmap := Util.match_iff.mp h
  rw [hnil] at hmap
  exact hne (List.map_eq_nil_iff.mp hmap.symm)

/-! ### What `search` passes on as it is -/

/-- The records that a response has. -/
def recordItems {α : Type*} : Option (Z3950.Records α) → List α
  | some (.databaseOrSurDiagnostics l) => l.items
  | _ => []

def Gdu.items : Gdu ρ ξ → List (NamePlusRecord ρ)
  | .searchResponse records _ => recordItems records
  | .presentResponse records _ => recordItems records
  | .other _ => []

/-- The records name the databases that the client is to see already. -/
def NamesAlready (rep : Rep) (b : Backend) (back : Option (Gdu ρ ξ)) : Prop :=
  ∀ gdu ∈ back, ∀ npr ∈ gdu.items, ∀ name ∈ npr.databaseName, shownName rep b name = name

/-- A search response on a session that is open. -/
def PackageAnswer.IsFixed (answer : PackageAnswer ρ ξ) : Prop :=
  answer.closed = false ∧ ∃ records rest, answer.response = some (.searchResponse records rest)

theorem mapItems_eq_iff {α : Type*} {f : α → α} {l : NamePlusRecordList α} :
    mapItems f l = l ↔ ∀ x ∈ l.items, f x = x := by
  have hsplit : l.records = l.items ++ l.records.drop l.numRecords.toNat :=
    (List.take_append_drop _ _).symm
  have hmap : l.items.map f = l.items ↔ ∀ x ∈ l.items, f x = x := by
    have hinj := List.map_inj_left (f := f) (g := id) (l := l.items)
    rwa [List.map_id] at hinj
  rw [← hmap]
  constructor
  · intro h
    have hrecords : l.items.map f ++ l.records.drop l.numRecords.toNat = l.records :=
      congrArg NamePlusRecordList.records h
    exact List.append_cancel_right (hrecords.trans hsplit)
  · intro h
    rw [mapItems, h, ← hsplit]

theorem mapRecords_eq_iff {α : Type*} {f : α → α} {records : Option (Z3950.Records α)} :
    mapRecords f records = records ↔ ∀ x ∈ recordItems records, f x = x := by
  cases records with
  | none => exact iff_of_true rfl (List.forall_mem_nil _)
  | some records =>
    cases records with
    | databaseOrSurDiagnostics l =>
      rw [mapRecords, Option.some.injEq, Z3950.Records.databaseOrSurDiagnostics.injEq]
      exact mapItems_eq_iff
    | nonSurrogateDiagnostic d => exact iff_of_true rfl (List.forall_mem_nil _)
    | multipleNonSurDiagnostics ds => exact iff_of_true rfl (List.forall_mem_nil _)

theorem mapNpr_eq_iff {f : NamePlusRecord ρ → NamePlusRecord ρ} {gdu : Gdu ρ ξ} :
    gdu.mapNpr f = gdu ↔ ∀ npr ∈ gdu.items, f npr = npr := by
  cases gdu with
  | searchResponse records rest =>
    rw [Gdu.mapNpr, Gdu.searchResponse.injEq, and_iff_left rfl]
    exact mapRecords_eq_iff
  | presentResponse records rest =>
    rw [Gdu.mapNpr, Gdu.presentResponse.injEq, and_iff_left rfl]
    exact mapRecords_eq_iff
  | other rest => exact iff_of_true rfl (List.forall_mem_nil _)

theorem shown_eq_iff {npr : NamePlusRecord ρ} :
    shown rep b npr = npr ↔ ∀ name ∈ npr.databaseName, shownName rep b name = name := by
  obtain ⟨name, record⟩ := npr
  cases name with
  | none => simp [shown]
  | some name => simp [shown]

/-- A response that is passed on as it is shows the right names if they are there already. -/
theorem shown_self_iff {back : Option (Gdu ρ ξ)} :
    Shown rep b back back ↔ NamesAlready rep b back := by
  cases back with
  | none => exact iff_of_true rfl fun gdu h => by cases h
  | some gdu =>
    have hself : Shown rep b (some gdu) (some gdu) ↔ gdu.mapNpr (shown rep b) = gdu := by
      rw [Shown, Option.map_some, Option.some.injEq]
      exact eq_comm
    rw [hself, mapNpr_eq_iff, NamesAlready]
    constructor
    · intro h gdu' hgdu npr hnpr
      cases hgdu
      exact shown_eq_iff.mp (h npr hnpr)
    · intro h npr hnpr
      exact shown_eq_iff.mpr (h gdu rfl npr hnpr)

theorem searchResponse_fixed {answer : PackageAnswer ρ ξ} (h : answer.IsFixed) :
    Shown rep b answer.response (searchResponse rep b answer) := by
  obtain ⟨hopen, records, rest, hresponse⟩ := h
  rw [searchResponse, hopen, hresponse]
  by_cases hset : hasSet records = true
  · simp only [hset, if_true, Bool.false_eq_true, if_false]
    exact fixupPackage_eq rep b _
  · -- there are diagnostics in place of the records
    have hitems : recordItems records = [] := by
      cases records with
      | none => rfl
      | some records => cases records <;> first | rfl | exact absurd rfl hset
    have halready : NamesAlready rep b (some (Gdu.searchResponse records rest : Gdu ρ ξ)) := by
      intro gdu hgdu npr hnpr
      cases hgdu
      rw [Gdu.items, hitems] at hnpr
      cases hnpr
    simp only [hset, Bool.false_eq_true, if_false]
    exact shown_self_iff.mpr halready

theorem searchResponse_other {answer : PackageAnswer ρ ξ} (h : ¬ answer.IsFixed) :
    searchResponse rep b answer = answer.response := by
  rw [searchResponse]
  split
  · rfl
  · rename_i hopen
    split
    · rename_i records rest hresponse
      exact absurd ⟨Bool.eq_false_iff.mpr hopen, records, rest, hresponse⟩ h
    · rfl

/-- `search` shows the names that are for the client if and only if its session is open and the
response is one to a search, or the names are there already. -/
theorem searchResponse_shown_iff {answer : PackageAnswer ρ ξ} :
    Shown rep b answer.response (searchResponse rep b answer) ↔
      answer.IsFixed ∨ NamesAlready rep b answer.response := by
  by_cases hfixed : answer.IsFixed
  · exact iff_of_true (searchResponse_fixed hfixed) (.inl hfixed)
  · rw [searchResponse_other hfixed, shown_self_iff, or_iff_right hfixed]

/-! ## Runs -/

/-- A session, and the databases that the search for each of its result sets asked for. -/
structure Asked where
  session : St
  databases : Table String (List String)

/-- The databases are those of the last search that left a result set. -/
def Asked.step (rep : Rep) (t : Asked) (a : Label) : Option Asked :=
  (VirtualDB.step rep t.session a).map fun session =>
    { session
      databases :=
        match a with
        | .search req ia sa =>
          if sa.ok && (searchBackend rep t.session req ia).isSome then
            t.databases.insert req.resultSetName req.databaseNames
          else t.databases
        | _ => t.databases }

def Asked.init (t : Asked) : Prop := VirtualDB.init t.session

/-- Each result set is on a backend for the databases asked for. -/
def Asked.Matches (t : Asked) : Prop :=
  ∀ name set, t.session.sets.lookup name = some set →
    ∃ databases, t.databases.lookup name = some databases ∧
      Util.match_ set.backend.frontendDatabases databases = true

/-- A request that is no search leaves the result sets as they are. -/
theorem process_sets {s : St} {a : Label} (h : ∀ req ia sa, a ≠ .search req ia sa) :
    (process rep s a).1.sets = s.sets := by
  rcases process_cases rep s a with ⟨hgrows, -⟩ | ⟨req, ia, sa, -, -, ha, -⟩ |
    ⟨name, closed, set, -, -, hs⟩
  · exact hgrows.sets
  · exact absurd ha (h req ia sa)
  · rw [hs]

theorem matches_step {t t' : Asked} {a : Label} (h : t.Matches) (hs : t.step rep a = some t') :
    t'.Matches := by
  obtain ⟨s', hstep, rfl⟩ := Option.map_eq_some_iff.mp hs
  simp only [VirtualDB.step] at hstep
  split at hstep
  · cases hstep
  · cases hstep
    cases a with
    | search req ia sa =>
      rcases search_cases (ρ := Unit) (ξ := Unit) rep t.session req ia with
        ⟨hnone, hsets⟩ | ⟨b, s1, hb, hsets, hmatch, hsearch, -⟩
      · intro name set hl
        rw [process, hsets sa] at hl
        simp only [hnone, Option.isSome_none, Bool.and_false]
        exact h name set hl
      · intro name set hl
        rw [process, hsearch sa] at hl
        by_cases hname : name = req.resultSetName
        · subst hname
          rw [searchOn_lookup_self] at hl
          split at hl
          · rename_i hok
            cases hl
            simp only [hb, hok, Option.isSome_some, Bool.and_true, if_true]
            exact ⟨_, AList.lookup_insert _, hmatch⟩
          · cases hl
        · rw [searchOn_lookup_ne hname, hsets] at hl
          obtain ⟨databases, hd, hm⟩ := h name set hl
          refine ⟨databases, ?_, hm⟩
          dsimp only
          split
          · rw [AList.lookup_insert_ne hname]
            exact hd
          · exact hd
    | _ =>
      intro name set hl
      rw [process_sets fun _ _ _ heq => by cases heq] at hl
      exact h name set hl

theorem matches_of_reach {t : Asked} (h : Reach (Asked.step rep) Asked.init Any t) :
    t.Matches := by
  refine h.invariant (fun t ht name set hl => ?_) fun _ _ _ hi _ hs => matches_step hi hs
  rw [ht.2.1, AList.lookup_empty] at hl
  cases hl

/-- In every state: a search goes to a backend for the databases it asks for, and its response shows
the names of these if and only if it comes on an open session and is one to a search, or it does so
already. A present goes to a backend for the databases that were asked for, and its response always
shows their names. -/
theorem names_shown_iff (rep : Rep) {t : Asked} (h : Reach (Asked.step rep) Asked.init Any t) :
    (∀ req ia b, searchBackend rep t.session req ia = some b → req.databaseNames ≠ [] →
      Util.match_ b.frontendDatabases req.databaseNames = true ∧
      (∀ name, shownName rep b name ∈ b.frontendDatabases) ∧
      ∀ answer : PackageAnswer ρ ξ, ∃ client,
        (searchPackage rep t.session req ia answer).2 = .backend client ∧
        (Shown rep b answer.response client ↔
          answer.IsFixed ∨ NamesAlready rep b answer.response)) ∧
    ∀ resultSetId set, t.session.sets.lookup resultSetId = some set →
      ∃ databases, t.databases.lookup resultSetId = some databases ∧
        Util.match_ set.backend.frontendDatabases databases = true ∧
        (databases ≠ [] → ∀ name, shownName rep set.backend name ∈ set.backend.frontendDatabases) ∧
        ∀ answer : PackageAnswer ρ ξ, ∃ client,
          (presentPackage rep t.session resultSetId answer).2 = .backend client ∧
          Shown rep set.backend answer.response client := by
  refine ⟨fun req ia b hb hne => ?_, fun resultSetId set hset => ?_⟩
  · rcases search_cases (ρ := ρ) (ξ := ξ) rep t.session req ia with
      ⟨hnone, -⟩ | ⟨b', s1, hb', -, hmatch, -, hpackage⟩
    · rw [hnone] at hb
      cases hb
    · rw [hb] at hb'
      cases hb'
      refine ⟨hmatch, shownName_mem (ne_nil_of_match hmatch hne), fun answer => ?_⟩
      exact ⟨_, hpackage answer, searchResponse_shown_iff⟩
  · obtain ⟨databases, hd, hmatch⟩ := matches_of_reach h resultSetId set hset
    refine ⟨databases, hd, hmatch, fun hne => shownName_mem (ne_nil_of_match hmatch hne),
      fun answer => ?_⟩
    refine ⟨presentResponse rep set.backend answer, ?_, presentResponse_shown rep _ answer⟩
    rw [presentPackage, hset]

/-! ### A record of `target` -/

def searchDb : SearchRequest := ⟨"1", true, ["db"]⟩

def accepts : InitAnswer := ⟨some ⟨false, true, none⟩, false⟩

def dbBackend : Backend := ⟨1, ["db"], ["target"], "", false⟩

def oneRecord (closed : Bool) : PackageAnswer Nat Nat :=
  ⟨closed, some (.searchResponse (some (.databaseOrSurDiagnostics ⟨1, [⟨some "target", 0⟩]⟩)) 0)⟩

theorem names_shown_iff_open :
    (searchPackage oneDatabase emptySession searchDb accepts (oneRecord false)).2 = .backend
      (some (.searchResponse (some (.databaseOrSurDiagnostics ⟨1, [⟨some "db", 0⟩]⟩)) 0)) := by
  have hstart : Reach (Asked.step oneDatabase) Asked.init Any ⟨emptySession, ∅⟩ :=
    .start ⟨rfl, rfl, rfl, rfl⟩
  obtain ⟨-, -, hanswer⟩ :=
    (names_shown_iff oneDatabase hstart).1 searchDb accepts dbBackend rfl (by decide)
  obtain ⟨client, hclient, hshown⟩ := hanswer (oneRecord false)
  have hnames := hshown.mpr (.inl ⟨rfl, _, _, rfl⟩)
  rw [hclient, hnames]
  rfl

/-- The same record on a session that the target has closed names `target`. -/
theorem closed_search_unchanged :
    ¬ ∀ (rep : Rep) (t : Asked), Reach (Asked.step rep) Asked.init Any t →
      ∀ req ia b, searchBackend rep t.session req ia = some b → req.databaseNames ≠ [] →
        ∀ (answer : PackageAnswer Nat Nat) (client : Option (Gdu Nat Nat)),
          (searchPackage rep t.session req ia answer).2 = .backend client →
          Shown rep b answer.response client := by
  intro h
  have hstart : Reach (Asked.step oneDatabase) Asked.init Any ⟨emptySession, ∅⟩ :=
    .start ⟨rfl, rfl, rfl, rfl⟩
  have hshown := h oneDatabase _ hstart searchDb accepts dbBackend rfl (by decide) (oneRecord true)
    (oneRecord true).response rfl
  rw [Shown] at hshown
  revert hshown
  decide

end VirtualDB
end Metaproxy
