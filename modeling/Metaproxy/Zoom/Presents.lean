import Metaproxy.Lib.Run
import Metaproxy.Zoom.Retries

/-!
# Zoom.Presents

The searches and presents of a session. A present should show what the most recent search has found,
and nothing after one that has ended in an error (`Right`, `Safe`).

* `safe_iff` — this is so when there is no backend, or one with the result set of that search.
* `search_safe_iff` — which searches keep it so (`EndsWell`).
* `presents_last_search_iff` — both for all runs.
-/

namespace Metaproxy
namespace Zoom

open Lib
open Z3950 (PresentRequest PresentResponse SearchResponse)

/-! ## Sessions -/

/-- A session, what its most recent search has come to, and the result sets that were given to
`Backend::present`. -/
structure Session where
  frontend : Frontend
  /-- `some none` after a search that ended in an error. -/
  last : Option (Option Nat)
  presented : List (Option Nat)

inductive Request where
  | search (sr : SearchRequest) (attempts : List Attempt)
  | present (pr : PresentRequest) (zoom : Presented)

def Session.start (sessionRealm : List Char) : Session := ⟨⟨sessionRealm, none, 0⟩, none, []⟩

/-- What a search has found has the last number. -/
def Session.searched (s : Session) (h : Handled (SearchResponse NamePlusRecord)) : Session where
  frontend := h.frontend
  last := some (if h.response.searchStatus then some (h.frontend.made - 1) else none)
  presented := s.presented ++ h.presented.toList

def Session.step (yaz : Yaz) (impl : Impl) (s : Session) : Request → Option Session
  | .search sr attempts =>
    match handleSearch yaz impl s.frontend sr attempts with
    | some (.done h) => some (s.searched h)
    | _ => none
  | .present pr zoom =>
    (handlePresent s.frontend pr zoom).map fun h =>
      { s with frontend := h.frontend, presented := s.presented ++ h.presented.toList }

/-! ## What presents should show -/

/-- The number of what a present would be answered from. -/
def BackendPtr.shows : BackendPtr → Option Nat
  | .target b => b.resultset
  | .explain e => some e.number

/-- A present is answered as the most recent search wants it. -/
structure Right (s : Session) (h : Handled (PresentResponse NamePlusRecord)) : Prop where
  found : ∀ l, h.response.records = some (.databaseOrSurDiagnostics l) →
    ∃ n, s.last = some (some n) ∧ (h.presented = some (some n) ∨
      h.presented = none ∧ ∃ e, s.frontend.backend = some (.explain e) ∧ e.number = n)
  failed : s.last = some none → ∃ d, h.response.records = some (.nonSurrogateDiagnostic d)
  notNull : h.presented ≠ some none

/-- Whatever present comes next, it is answered as it should be. -/
def Safe (s : Session) : Prop :=
  ∀ pr zoom h, handlePresent s.frontend pr zoom = some h → Right s h

/-- What is behind `Safe`. -/
def Shows (s : Session) : Prop :=
  s.frontend.backend = none ∨
    ∃ n b, s.last = some (some n) ∧ s.frontend.backend = some b ∧ b.shows = some n

theorem right_diagnostic (s : Session) (f : Frontend) (d : Diag) {presented : Option (Option Nat)}
    (h : presented ≠ some none) : Right s (presentDiagnostic f d presented) where
  found := by
    intro l hl
    cases hl
  failed _ := ⟨_, rfl⟩
  notNull := h

theorem presentHandled_records {f : Frontend} {g : GetRecords} {l : Z3950.NamePlusRecordList _}
    (h : (presentHandled f g).response.records = some (.databaseOrSurDiagnostics l)) :
    g.error = none ∧ g.records ≠ none := by
  unfold presentHandled at h
  split at h
  · cases h
  · rename_i herror
    refine ⟨herror, ?_⟩
    intro hnone
    simp only [hnone] at h
    cases h

theorem presentHandled_presented (f : Frontend) (g : GetRecords) :
    (presentHandled f g).presented = g.presented := by
  unfold presentHandled
  split
  · rfl
  · split
    · rfl
    · rfl

theorem presentHandled_frontend (f : Frontend) (g : GetRecords) :
    (presentHandled f g).frontend = f := by
  unfold presentHandled
  split
  · rfl
  · split
    · rfl
    · rfl

theorem getRecords_presented {start number : Int} {b : Backend} {zoom : Presented} :
    (getRecords start number b zoom).presented = none ∧
        (getRecords start number b zoom).records = none ∧
        (getRecords start number b zoom).error = none ∨
      (getRecords start number b zoom).presented = some b.resultset := by
  unfold getRecords
  split
  · exact .inl ⟨rfl, rfl, rfl⟩
  · right
    simp only
    split
    · rfl
    · rfl

theorem getExplainRecords_presented {start number : Int} {e : Explained} {g : GetRecords}
    (h : getExplainRecords start number e = some g) : g.presented = none := by
  obtain ⟨l, -, rfl⟩ := Option.map_eq_some_iff.mp h
  rfl

/-- How a present with a backend is answered. -/
theorem handlePresent_cases {f : Frontend} {bp : BackendPtr} {pr : PresentRequest}
    {zoom : Presented} {h : Handled (PresentResponse NamePlusRecord)}
    (hbackend : f.backend = some bp) (hpresent : handlePresent f pr zoom = some h) :
    h = presentDiagnostic f ⟨.presentCompSpecParameterUnsupp, []⟩ none ∨
    (∃ e g, bp = .explain e ∧ getExplainRecords (pr.resultSetStartPoint - 1)
      pr.numberOfRecordsRequested e = some g ∧ h = presentHandled f g) ∨
    ∃ b, bp = .target b ∧ h = presentHandled f
      (getRecords (pr.resultSetStartPoint - 1) pr.numberOfRecordsRequested b zoom) := by
  rw [handlePresent, hbackend] at hpresent
  simp only at hpresent
  split at hpresent
  · cases hpresent
    exact .inl rfl
  · right
    cases bp with
    | explain e =>
      obtain ⟨g, hg, rfl⟩ := Option.map_eq_some_iff.mp hpresent
      exact .inl ⟨e, g, rfl, hg, rfl⟩
    | target b =>
      cases hpresent
      exact .inr ⟨b, rfl, rfl⟩

theorem safe_of_shows {s : Session} (h : Shows s) : Safe s := by
  intro pr zoom r hr
  rcases h with hnone | ⟨n, bp, hlast, hbackend, hshows⟩
  · rw [handlePresent, hnone] at hr
    cases hr
    exact right_diagnostic s _ _ nofun
  · have hfailed : s.last ≠ some none := by
      rw [hlast]
      nofun
    rcases handlePresent_cases hbackend hr with rfl | ⟨e, g, rfl, hg, rfl⟩ | ⟨b, rfl, rfl⟩
    · exact right_diagnostic s _ _ nofun
    · have hpresented := getExplainRecords_presented hg
      refine ⟨?_, fun h => absurd h hfailed, ?_⟩
      · intro l _
        refine ⟨n, hlast, .inr ⟨?_, e, hbackend, Option.some.inj hshows⟩⟩
        rw [presentHandled_presented, hpresented]
      · rw [presentHandled_presented, hpresented]
        nofun
    · have hset : b.resultset = some n := hshows
      refine ⟨?_, fun h => absurd h hfailed, ?_⟩
      · intro l hl
        refine ⟨n, hlast, .inl ?_⟩
        rw [presentHandled_presented]
        rcases getRecords_presented with ⟨-, hno, -⟩ | hpresented
        · exact absurd hno (presentHandled_records hl).2
        · rw [hpresented, hset]
      · rw [presentHandled_presented]
        rcases getRecords_presented with ⟨hno, -, -⟩ | hpresented
        · rw [hno]
          nofun
        · rw [hpresented, hset]
          nofun

def ask (numberOfRecordsRequested : Int) : PresentRequest :=
  ⟨"default", 1, numberOfRecordsRequested, none, none⟩

def oneRecord : Presented := ⟨none, [some ⟨none, .ok []⟩]⟩

theorem ask_none {f : Frontend} {e : Explained} (h : f.backend = some (.explain e)) :
    handlePresent f (ask 0) oneRecord = some (presentHandled f ⟨none, none, some []⟩) := by
  rw [handlePresent, h]
  rfl

theorem ask_one {f : Frontend} {b : Backend} (h : f.backend = some (.target b)) :
    handlePresent f (ask 1) oneRecord = some (presentHandled f ⟨some b.resultset, none,
      some [.databaseRecord b.frontendDatabase []]⟩) := by
  rw [handlePresent, h]
  rfl

theorem shows_of_safe {s : Session} (h : Safe s) : Shows s := by
  cases hbackend : s.frontend.backend with
  | none => exact .inl hbackend
  | some bp =>
    right
    cases bp with
    | explain e =>
      have hright := h _ _ _ (ask_none hbackend)
      obtain ⟨n, hlast, hshown | ⟨-, e', he', hn⟩⟩ := hright.found _ rfl
      · cases hshown
      · rw [hbackend] at he'
        cases he'
        exact ⟨n, .explain e, hlast, hbackend, congrArg some hn⟩
    | target b =>
      have hright := h _ _ _ (ask_one hbackend)
      obtain ⟨n, hlast, hshown | ⟨hnone, -⟩⟩ := hright.found _ rfl
      · exact ⟨n, .target b, hlast, hbackend, Option.some.inj hshown⟩
      · cases hnone

theorem safe_iff (s : Session) : Safe s ↔ Shows s := ⟨shows_of_safe, safe_of_shows⟩

/-! ## Searches -/

section Searches

variable (yaz : Yaz) (impl : Impl) (sr : SearchRequest) (database : List Char)

/-- The proxy is down, and so the backend is given up. -/
def ProxyDown (b : Backend) (a : Attempt) : Prop := b.proxy ≠ [] ∧ a.checkProxy = false

/-- With a backend, a search succeeds, with the first records, or its proxy is down. -/
def SearchEndsWell (b : Backend) (a : Attempt) : Prop :=
  match toZoomQuery yaz impl b.sptr sr.query with
  | some (.ok _) =>
    match a.search with
    | .error _ => ProxyDown b a
    | .ok hits => (getRecords 0 (numberToPresent sr hits) b a.present).error = none
  | _ => False

/-- The last attempt of a search does not end in an error with a backend. -/
def EndsWell (l : Loop) (a : Attempt) : Prop :=
  match databaseArgs yaz impl l.frontend database l.proxyStep with
  | .error _ => l.frontend.backend = none
  | .ok args =>
    match l.frontend.connectionReuse database with
    | some b =>
      match a.connect with
      | some _ => ProxyDown b a
      | none => SearchEndsWell yaz impl sr b a
    | none =>
      torusDb database = "IR-Explain---1".toList ∨
        match findSearchable impl args.torusUrl database a.torus, a.unusable with
        | .ok sptr, none =>
          (Backend.new sptr database args).connect a = none →
            SearchEndsWell yaz impl sr (.new sptr database args) a
        | _, _ => l.frontend.backend = none

/-- Where the last attempt begins, and what comes of it is its answers. -/
def lastAttempt : Loop → List Attempt → Option (Loop × Attempt)
  | _, [] => none
  | l, a :: attempts =>
    match attempt yaz impl sr database l a with
    | .again l' => lastAttempt l' attempts
    | _ => some (l, a)

variable {yaz impl sr database}

/-- A search that is over leaves no backend, or one with what it has found. -/
def Left (h : Handled (SearchResponse NamePlusRecord)) : Prop :=
  h.frontend.backend = none ∨ h.response.searchStatus = true ∧
    ∃ b, h.frontend.backend = some b ∧ b.shows = some (h.frontend.made - 1)

theorem shows_searched (s : Session) (h : Handled (SearchResponse NamePlusRecord)) :
    Shows (s.searched h) ↔ Left h := by
  unfold Shows Left Session.searched
  cases h.response.searchStatus with
  | true => simp
  | false => simp

theorem left_diagnostic (f : Frontend) (d : Diag) {presented : Option (Option Nat)} :
    Left ⟨f, .diagnostic d.condition d.addinfo, presented⟩ ↔ f.backend = none := by
  refine ⟨fun h => h.resolve_right ?_, .inl⟩
  rintro ⟨hstatus, -⟩
  cases hstatus

theorem retry_done {l : Loop} {b : Option Backend} {error : Diag} {checkProxy : Bool}
    {h : Handled (SearchResponse NamePlusRecord)}
    (hdone : orRetry (retry l b error checkProxy) = .done h) :
    h.presented = none ∧ (Left h ↔ l.frontend.backend = none ∨
      ∃ b0, b = some b0 ∧ b0.proxy ≠ [] ∧ checkProxy = false) := by
  unfold retry at hdone
  cases b with
  | none =>
    cases hdone
    refine ⟨rfl, (left_diagnostic _ _).trans ⟨.inl, fun h => h.resolve_right ?_⟩⟩
    rintro ⟨b0, hb0, -⟩
    cases hb0
  | some b =>
    simp only at hdone
    split at hdone
    · rename_i hdown
      split at hdone
      · cases hdone
      · cases hdone
        refine ⟨rfl, iff_of_true (.inl rfl) (.inr ⟨b, rfl, hdown.1, ?_⟩)⟩
        simpa using hdown.2
    · rename_i hup
      split at hdone
      · cases hdone
      · cases hdone
        refine ⟨rfl, (left_diagnostic _ _).trans ⟨.inl, fun h => h.resolve_right ?_⟩⟩
        rintro ⟨b0, hb0, hproxy, hcheck⟩
        cases hb0
        exact hup ⟨hproxy, by simp [hcheck]⟩

theorem found_status (f : Frontend) (hits : Int) (g : GetRecords) :
    (found f hits g).response.searchStatus = g.error.isNone := by
  unfold found
  split
  · rename_i error herror
    rw [herror]
    rfl
  · rename_i herror
    rw [herror]
    unfold withRecords
    split
    · rfl
    · rfl

theorem found_frontend (f : Frontend) (hits : Int) (g : GetRecords) :
    (found f hits g).frontend = f ∧ (found f hits g).presented = g.presented := by
  unfold found
  split
  · exact ⟨rfl, rfl⟩
  · exact ⟨rfl, rfl⟩

theorem getRecords_error (start number : Int) (b b' : Backend) (zoom : Presented) :
    (getRecords start number b zoom).error = (getRecords start number b' zoom).error := by
  unfold getRecords
  split
  · rfl
  · cases zoom.error with
    | some error => rfl
    | none => rfl

/-- A search that the target has answered. -/
theorem found_left (f : Frontend) (b : Backend) (hits number : Int) (zoom : Presented) :
    Left (found (f.search b).1 hits (getRecords 0 number (f.search b).2 zoom)) ↔
      (getRecords 0 number b zoom).error = none := by
  unfold Left
  rw [found_status, (found_frontend _ _ _).1, getRecords_error 0 number _ b]
  constructor
  · rintro (hnone | ⟨hstatus, -⟩)
    · cases hnone
    · exact Option.isNone_iff_eq_none.mp hstatus
  · intro herror
    exact .inr ⟨Option.isNone_iff_eq_none.mpr herror, _, rfl, rfl⟩

theorem searchBackend_left {l : Loop} {b b' : Backend} {a : Attempt}
    {h : Handled (SearchResponse NamePlusRecord)} (hbackend : l.frontend.backend = some (.target b'))
    (hdone : searchBackend yaz impl sr l b a = .done h) :
    h.presented ≠ some none ∧ (Left h ↔ SearchEndsWell yaz impl sr b a) := by
  unfold searchBackend at hdone
  unfold SearchEndsWell
  split at hdone
  · cases hdone
  · rename_i error hquery
    cases hdone
    rw [hquery]
    refine ⟨nofun, (left_diagnostic _ _).trans (iff_of_false ?_ id)⟩
    rw [hbackend]
    nofun
  · rename_i q hquery
    rw [hquery]
    cases hsearch : a.search with
    | error error =>
      simp only [hsearch] at hdone
      obtain ⟨hpresented, hleft⟩ := retry_done hdone
      refine ⟨by rw [hpresented]; nofun, hleft.trans ⟨?_, ?_⟩⟩
      · rintro (hnone | ⟨b0, hb0, hdown⟩)
        · cases hnone
        · cases hb0
          exact hdown
      · intro hdown
        exact .inr ⟨_, rfl, hdown⟩
    | ok hits =>
      simp only [hsearch] at hdone
      cases hdone
      refine ⟨?_, found_left l.frontend b hits _ a.present⟩
      rw [(found_frontend _ _ _).2]
      rcases getRecords_presented with ⟨hno, -, -⟩ | hpresented
      · rw [hno]
        nofun
      · rw [hpresented]
        nofun

/-- An attempt that failed without a backend of its own. -/
theorem failed_left {l : Loop} {a : Attempt} {f : Frontend} {error : Diag} {proxyStep : Nat}
    {h : Handled (SearchResponse NamePlusRecord)}
    (hdone : proceed yaz impl sr l a (.failed f none error proxyStep) = .done h) :
    h.presented ≠ some none ∧ (Left h ↔ f.backend = none) := by
  unfold proceed at hdone
  obtain ⟨hpresented, hleft⟩ := retry_done hdone
  refine ⟨by rw [hpresented]; nofun, hleft.trans ⟨fun h => h.resolve_right ?_, .inl⟩⟩
  rintro ⟨b0, hb0, -⟩
  cases hb0

theorem connected_left {l : Loop} {a : Attempt} {f : Frontend} {b : Backend} {proxyStep : Nat}
    {h : Handled (SearchResponse NamePlusRecord)} (hbackend : f.backend = some (.target b))
    (hdone : proceed yaz impl sr l a (.connected f b proxyStep) = .done h) :
    h.presented ≠ some none ∧ (Left h ↔ SearchEndsWell yaz impl sr b a) :=
  searchBackend_left (l := { l with frontend := f, proxyStep := proxyStep }) hbackend hdone

theorem backend_of_reuse {f : Frontend} {b : Backend}
    (h : f.connectionReuse database = some b) : f.backend = some (.target b) := by
  unfold Frontend.connectionReuse at h
  split at h
  · rename_i b' hbackend
    split at h
    · cases h
      exact hbackend
    · cases h
  · cases h

theorem explainSearch_left {l : Loop} {a : Attempt} {h : Handled (SearchResponse NamePlusRecord)}
    (hdone : proceed yaz impl sr l a
      (explainSearch impl l.frontend database sr.query a.explain) = .done h) :
    h.presented ≠ some none ∧ Left h := by
  unfold explainSearch at hdone
  split at hdone
  · split at hdone
    · split at hdone
      · exact (failed_left hdone).imp_right fun hleft => hleft.mpr rfl
      · cases hdone
        exact ⟨nofun, .inr ⟨rfl, _, rfl, rfl⟩⟩
    · exact (failed_left hdone).imp_right fun hleft => hleft.mpr rfl
  · exact (failed_left hdone).imp_right fun hleft => hleft.mpr rfl

theorem newBackend_left {l : Loop} {a : Attempt} {h : Handled (SearchResponse NamePlusRecord)}
    {b : Backend} {proxyStep : Nat}
    (hdone : proceed yaz impl sr l a (l.frontend.newBackend b a proxyStep) = .done h) :
    h.presented ≠ some none ∧
      (Left h ↔ (b.connect a = none → SearchEndsWell yaz impl sr b a)) := by
  unfold Frontend.newBackend at hdone
  cases hconnect : b.connect a with
  | some error =>
    simp only [hconnect, proceed] at hdone
    obtain ⟨hpresented, hleft⟩ := retry_done hdone
    exact ⟨by rw [hpresented]; nofun, iff_of_true (hleft.mpr (.inl rfl)) nofun⟩
  | none =>
    simp only [hconnect] at hdone
    obtain ⟨hpresented, hleft⟩ := connected_left rfl hdone
    exact ⟨hpresented, hleft.trans ⟨fun h _ => h, fun h => h rfl⟩⟩

theorem attempt_left {l : Loop} {a : Attempt} {h : Handled (SearchResponse NamePlusRecord)}
    (hdone : attempt yaz impl sr database l a = .done h) :
    h.presented ≠ some none ∧ (Left h ↔ EndsWell yaz impl sr database l a) := by
  unfold attempt getBackendFromDatabases at hdone
  unfold EndsWell
  cases hargs : databaseArgs yaz impl l.frontend database l.proxyStep with
  | error error =>
    simp only [hargs] at hdone
    exact failed_left hdone
  | ok args =>
    simp only [hargs] at hdone
    cases hreuse : l.frontend.connectionReuse database with
    | some b =>
      have hbackend := backend_of_reuse hreuse
      simp only [hreuse] at hdone
      cases hconnect : a.connect with
      | some error =>
        simp only [hconnect, proceed] at hdone
        obtain ⟨hpresented, hleft⟩ := retry_done hdone
        refine ⟨by rw [hpresented]; nofun, hleft.trans ⟨?_, fun hdown => .inr ⟨b, rfl, hdown⟩⟩⟩
        rintro (hnone | ⟨b0, hb0, hdown⟩)
        · rw [hbackend] at hnone
          cases hnone
        · cases hb0
          exact hdown
      | none =>
        simp only [hconnect] at hdone
        exact connected_left hbackend hdone
    | none =>
      simp only [hreuse] at hdone
      by_cases hexplain : torusDb database = "IR-Explain---1".toList
      · rw [if_pos hexplain] at hdone
        obtain ⟨hpresented, hleft⟩ := explainSearch_left hdone
        exact ⟨hpresented, iff_of_true hleft (.inl hexplain)⟩
      · rw [if_neg hexplain] at hdone
        simp only [hexplain, false_or]
        cases hfind : findSearchable impl args.torusUrl database a.torus with
        | error error =>
          simp only [hfind] at hdone
          exact failed_left hdone
        | ok sptr =>
          simp only [hfind] at hdone
          cases hunusable : a.unusable with
          | some error =>
            simp only [hunusable] at hdone
            exact failed_left hdone
          | none =>
            simp only [hunusable] at hdone
            exact newBackend_left hdone

theorem searchLoop_last {attempts : List Attempt} {out : Attempted} :
    ∀ {l : Loop}, searchLoop yaz impl sr database l attempts = some out →
      ∃ l' a, lastAttempt yaz impl sr database l attempts = some (l', a) ∧
        attempt yaz impl sr database l' a = out := by
  induction attempts with
  | nil =>
    intro l h
    cases h
  | cons a attempts ih =>
    intro l h
    rw [searchLoop] at h
    rw [lastAttempt]
    cases hattempt : attempt yaz impl sr database l a with
    | again l' =>
      rw [hattempt] at h
      exact ih h
    | done r =>
      rw [hattempt] at h
      cases h
      exact ⟨l, a, rfl, hattempt⟩
    | aborted =>
      rw [hattempt] at h
      cases h
      exact ⟨l, a, rfl, hattempt⟩

end Searches

/-! ## Runs -/

section Runs

variable (yaz : Yaz) (impl : Impl)

/-- A search ends well, or, when it has not one database, comes when there is no backend. -/
def SearchOk (s : Session) (sr : SearchRequest) (attempts : List Attempt) : Prop :=
  match sr.databaseNames with
  | [database] =>
    ∀ p ∈ lastAttempt yaz impl sr database ⟨s.frontend, 0, 0, 0⟩ attempts,
      EndsWell yaz impl sr database p.1 p.2
  | _ => s.frontend.backend = none

def StepOk (s : Session) : Request → Prop
  | .search sr attempts => SearchOk yaz impl s sr attempts
  | .present _ _ => True

variable {yaz impl}

theorem searchOk_of_ne {s : Session} {sr : SearchRequest} {attempts : List Attempt}
    (h : ∀ database, sr.databaseNames ≠ [database]) :
    SearchOk yaz impl s sr attempts ↔ s.frontend.backend = none := by
  unfold SearchOk
  split
  · rename_i database hone
    exact absurd hone (h database)
  · exact Iff.rfl

theorem handleSearch_left {s : Session} {sr : SearchRequest} {attempts : List Attempt}
    {h : Handled (SearchResponse NamePlusRecord)}
    (hdone : handleSearch yaz impl s.frontend sr attempts = some (.done h)) :
    h.presented ≠ some none ∧ (Left h ↔ SearchOk yaz impl s sr attempts) := by
  unfold handleSearch at hdone
  split at hdone
  · rename_i database hdatabases
    obtain ⟨l, a, hlast, hattempt⟩ := searchLoop_last hdone
    obtain ⟨hpresented, hleft⟩ := attempt_left hattempt
    refine ⟨hpresented, hleft.trans ?_⟩
    simp [SearchOk, hdatabases, hlast]
  · rename_i hdatabases
    cases hdone
    exact ⟨nofun, (left_diagnostic s.frontend ⟨.tooManyDatabasesSpecified, []⟩).trans
      (searchOk_of_ne hdatabases).symm⟩

theorem handlePresent_frontend {f : Frontend} {pr : PresentRequest} {zoom : Presented}
    {h : Handled (PresentResponse NamePlusRecord)} (hpresent : handlePresent f pr zoom = some h) :
    h.frontend = f := by
  cases hbackend : f.backend with
  | none =>
    rw [handlePresent, hbackend] at hpresent
    cases hpresent
    rfl
  | some bp =>
    rcases handlePresent_cases hbackend hpresent with rfl | ⟨_, _, _, _, rfl⟩ | ⟨_, _, rfl⟩
    · rfl
    · exact presentHandled_frontend f _
    · exact presentHandled_frontend f _

theorem not_mem_append {l : List (Option Nat)} {presented : Option (Option Nat)}
    (hl : none ∉ l) (hp : presented ≠ some none) : none ∉ l ++ presented.toList := by
  rw [List.mem_append, not_or]
  refine ⟨hl, fun hmem => hp ?_⟩
  exact Option.mem_toList.mp hmem

theorem step_safe {s s' : Session} {r : Request} (hsafe : Safe s)
    (hs : s.step yaz impl r = some s') :
    (Safe s' ↔ StepOk yaz impl s r) ∧ (none ∉ s.presented → none ∉ s'.presented) := by
  cases r with
  | search sr attempts =>
    unfold Session.step at hs
    simp only at hs
    split at hs
    · rename_i h hdone
      cases hs
      obtain ⟨hpresented, hleft⟩ := handleSearch_left hdone
      refine ⟨?_, fun hl => not_mem_append hl hpresented⟩
      rw [safe_iff, shows_searched]
      exact hleft
    · cases hs
  | present pr zoom =>
    obtain ⟨h, hpresent, rfl⟩ := Option.map_eq_some_iff.mp hs
    refine ⟨iff_of_true ?_ trivial, fun hl => not_mem_append hl (hsafe pr zoom h hpresent).notNull⟩
    rw [safe_iff] at hsafe ⊢
    rw [handlePresent_frontend hpresent]
    exact hsafe

end Runs

/-- In every run in which the searches end well, a present shows what the most recent search has
found, if anything; after a search that does not end well there is a present that does not. -/
theorem presents_last_search_iff (yaz : Yaz) (impl : Impl) (sessionRealm : List Char) {s : Session}
    (h : Reach (Session.step yaz impl) (· = .start sessionRealm) (StepOk yaz impl) s) :
    Safe s ∧ none ∉ s.presented ∧
      ∀ r s', s.step yaz impl r = some s' → (Safe s' ↔ StepOk yaz impl s r) := by
  have hinv : Safe s ∧ none ∉ s.presented := by
    refine h.invariant (I := fun s => Safe s ∧ none ∉ s.presented) ?_ ?_
    · rintro s rfl
      exact ⟨safe_of_shows (.inl rfl), List.not_mem_nil⟩
    · rintro s r s' ⟨hsafe, hl⟩ hok hs
      obtain ⟨hiff, hpresented⟩ := step_safe hsafe hs
      exact ⟨hiff.mpr hok, hpresented hl⟩
  exact ⟨hinv.1, hinv.2, fun r s' hs => (step_safe hinv.1 hs).1⟩

/-! ### A malformed query -/

def titleDatabase : List Char := "db".toList

def goodSearch : SearchRequest := ⟨[titleDatabase], .type1 "@attr 1=4 x".toList, 0, 1, 0⟩

def malformedSearch : SearchRequest := ⟨[titleDatabase], .type104 "(".toList, 0, 1, 0⟩

def answers : Attempt := { refused true with connect := none, search := .ok 5 }

/-- The session of a search that succeeds, and of a malformed one after it. -/
theorem presents_last_search_iff_good :
    ∃ s, s.last = some (some 0) ∧ Safe s ∧
      ∀ s', s.step plain (profileOnly titleDatabase) (.search malformedSearch [answers]) = some s' →
        ¬ Safe s' := by
  have hreach : Reach (Session.step plain (profileOnly titleDatabase)) (· = .start [])
      (StepOk plain (profileOnly titleDatabase)) (.start []) := .start rfl
  have hgood : StepOk plain (profileOnly titleDatabase) (.start [])
      (.search goodSearch [answers]) := by
    intro p hp
    cases hp
    exact .inr fun _ => rfl
  have h1 := hreach.next hgood rfl
  obtain ⟨hsafe, -, hiff⟩ := presents_last_search_iff plain (profileOnly titleDatabase) [] h1
  refine ⟨_, rfl, hsafe, fun s' hs => (hiff _ s' hs).not.mpr ?_⟩
  intro hok
  exact hok _ rfl

/-- After a malformed query a present is answered with the records of the search before it, or, when
there was none, from a null pointer. -/
theorem presents_after_error :
    (∃ s, run (Session.step plain (profileOnly titleDatabase)) (.start [])
        [.search goodSearch [answers], .search malformedSearch [answers]] = some s ∧
      s.last = some none ∧ ∃ h, handlePresent s.frontend (ask 1) oneRecord = some h ∧
        h.presented = some (some 0) ∧ h.response.numberOfRecordsReturned = 1) ∧
    ∃ s, run (Session.step plain (profileOnly titleDatabase)) (.start [])
        [.search malformedSearch [answers]] = some s ∧
      s.last = some none ∧ ∃ h, handlePresent s.frontend (ask 1) oneRecord = some h ∧
        h.presented = some none :=
  ⟨⟨_, rfl, rfl, _, rfl, rfl, rfl⟩, _, rfl, rfl, _, rfl, rfl⟩

end Zoom
end Metaproxy
