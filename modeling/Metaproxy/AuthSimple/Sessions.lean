import Metaproxy.AuthSimple
import Metaproxy.Lib.Run

/-!
# AuthSimple.Sessions

The user register over whole runs: packages of any sessions in any order. `userBySession` is what the
log in of each session has left there, and a search or scan is passed on exactly when the last user
who has logged in on its session may use each database, or when nobody has (`access_control`).

A package takes one step: what `process` reads and writes is under the mutex, and nothing is read
after the package has moved on.
-/

namespace Metaproxy
namespace AuthSimple

open Lib

variable {OtherInfo : Type}

/-- A package that has come, and what has become of it. -/
structure Event (OtherInfo : Type) where
  session : Session
  gdu : Option (Gdu OtherInfo)
  outcome : Outcome OtherInfo

structure St (OtherInfo : Type) where
  userBySession : UserBySession
  /-- The latest first. -/
  log : List (Event OtherInfo)

structure Label (OtherInfo : Type) where
  session : Session
  gdu : Option (Gdu OtherInfo)

def init (s : St OtherInfo) : Prop := s.userBySession = ∅ ∧ s.log = []

def step (yaz : YazOi OtherInfo) (rep : Rep) (s : St OtherInfo) (a : Label OtherInfo) :
    Option (St OtherInfo) :=
  let (userBySession, outcome) := process yaz rep a.session s.userBySession a.gdu
  some ⟨userBySession, ⟨a.session, a.gdu, outcome⟩ :: s.log⟩

/-! ## What the log says -/

/-- The user that an init passed on has logged in. -/
def Event.login (e : Event OtherInfo) : Option String :=
  match e.gdu, e.outcome with
  | some (.init req), .move _ => some (getUser req).1
  | _, _ => none

/-- The user who has logged in last. -/
def lastLogin (log : List (Event OtherInfo)) (session : Session) : Option String :=
  log.findSome? fun e => if e.session = session then e.login else none

def Gdu.databaseNames : Gdu OtherInfo → Option (List String)
  | .search databaseNames => some databaseNames
  | .scan databaseNames => some databaseNames
  | _ => none

def Gdu.reject : Gdu OtherInfo → Bib1 → String → Outcome OtherInfo
  | .scan _ => .rejectScan
  | _ => .rejectSearch

/-- The register has the database for the user, up to ASCII case, or `*`. -/
def Rep.Permits (rep : Rep) (user db : String) : Prop :=
  ∃ pdbs, rep.userRegister.lookup user = some pdbs ∧ ∃ i ∈ pdbs.dbs,
    Util.databaseNameNormalize i = Util.databaseNameNormalize db ∨
      Util.databaseNameNormalize i = "*"

/-- The init has the name and the password of a user. -/
def Rep.Knows (rep : Rep) (req : InitRequest OtherInfo) : Prop :=
  (getUser req).1 ≠ "" ∧ ∃ pdbs, rep.userRegister.lookup (getUser req).1 = some pdbs ∧
    pdbs.password = (getUser req).2

variable {yaz : YazOi OtherInfo} {rep : Rep} {s s' : St OtherInfo}

theorem permits_iff {user db : String} :
    rep.Permits user db ↔
      (contains (((rep.userRegister.lookup user).map PasswordAndDBs.dbs).getD []) db ||
        contains (((rep.userRegister.lookup user).map PasswordAndDBs.dbs).getD []) "*") = true := by
  rw [Bool.or_eq_true, contains_star_iff]
  simp only [contains, List.any_eq_true, decide_eq_true_eq, Rep.Permits]
  cases rep.userRegister.lookup user with
  | none => simp
  | some pdbs =>
    simp only [Option.some.injEq, exists_eq_left', Option.map_some, Option.getD_some]
    constructor
    · rintro ⟨i, hi, heq | heq⟩
      · exact .inl ⟨i, hi, heq⟩
      · exact .inr ⟨i, hi, heq⟩
    · rintro (⟨i, hi, heq⟩ | ⟨i, hi, heq⟩)
      · exact ⟨i, hi, .inl heq⟩
      · exact ⟨i, hi, .inr heq⟩

/-- No database is denied to a session that nobody has logged in on. -/
theorem deniedDatabase_none {session : Session} {users : UserBySession}
    {databaseNames : List String} :
    deniedDatabase rep session users databaseNames = none ↔
      ∀ user, users.lookup session = some user → ∀ db ∈ databaseNames, rep.Permits user db := by
  rw [deniedDatabase]
  cases users.lookup session with
  | none => simp
  | some user =>
    simp only [List.find?_eq_none, Option.some.injEq, forall_eq', permits_iff]
    refine forall₂_congr fun db _ => ?_
    cases contains _ db <;> cases contains _ "*" <;> decide

theorem deniedDatabase_some {session : Session} {users : UserBySession}
    {databaseNames : List String} {db : String}
    (h : deniedDatabase rep session users databaseNames = some db) :
    db ∈ databaseNames ∧ ∃ user, users.lookup session = some user ∧ ¬ rep.Permits user db := by
  rw [deniedDatabase] at h
  cases hlookup : users.lookup session with
  | none =>
    rw [hlookup] at h
    cases h
  | some user =>
    rw [hlookup] at h
    refine ⟨List.mem_of_find?_eq_some h, user, rfl, ?_⟩
    have hdenied := List.find?_some h
    rw [permits_iff]
    simpa using hdenied

/-- An init logs its user in, or is refused and leaves the table as it is. -/
theorem processInit_cases (rep : Rep) (session : Session) (users : UserBySession)
    (req : InitRequest OtherInfo) :
    (rep.Knows req ∧ processInit rep session users req =
      (users.insert session (getUser req).1, .move (some (.init req)))) ∨
    (¬ rep.Knows req ∧ ∃ addinfo,
      processInit rep session users req = (users, rejectInit none addinfo)) := by
  unfold processInit Rep.Knows
  by_cases hempty : (getUser req).1 = ""
  · exact .inr ⟨fun h => h.1 hempty, "no credentials supplied", by simp only [hempty, if_true]⟩
  · cases hlookup : rep.userRegister.lookup (getUser req).1 with
    | none =>
      refine .inr ⟨?_, "username/password combination rejected", ?_⟩
      · rintro ⟨-, pdbs, hpdbs, -⟩
        cases hpdbs
      · simp only [hempty, if_false, hlookup]
    | some pdbs =>
      by_cases hpassword : pdbs.password = (getUser req).2
      · exact .inl ⟨⟨hempty, pdbs, rfl, hpassword⟩, by
          simp only [hempty, if_false, hlookup, hpassword, if_true]⟩
      · refine .inr ⟨?_, "username/password combination rejected", ?_⟩
        · rintro ⟨-, pdbs', hpdbs, hsame⟩
          cases hpdbs
          exact hpassword hsame
        · simp only [hempty, if_false, hlookup, hpassword]

/-- What becomes of a package, by what has been logged before it. -/
inductive Verdict (rep : Rep) (earlier : List (Event OtherInfo)) (session : Session) :
    Option (Gdu OtherInfo) → Outcome OtherInfo → Prop where
  | login {req : InitRequest OtherInfo} : rep.Knows req →
      Verdict rep earlier session (some (.init req)) (.move (some (.init req)))
  | unknown {req : InitRequest OtherInfo} (addinfo : String) : ¬ rep.Knows req →
      Verdict rep earlier session (some (.init req)) (rejectInit none addinfo)
  | permitted {gdu : Gdu OtherInfo} {databaseNames : List String} :
      gdu.databaseNames = some databaseNames →
      (∀ user, lastLogin earlier session = some user → ∀ db ∈ databaseNames, rep.Permits user db) →
      Verdict rep earlier session (some gdu) (.move (some gdu))
  | denied {gdu : Gdu OtherInfo} {databaseNames : List String} {user db : String} :
      gdu.databaseNames = some databaseNames → db ∈ databaseNames →
      lastLogin earlier session = some user → ¬ rep.Permits user db →
      Verdict rep earlier session (some gdu) (gdu.reject .accessToSpecifiedDatabaseDenied db)
  | other {gdu : Option (Gdu OtherInfo)} : (∀ req, gdu ≠ some (.init req)) →
      (gdu.bind Gdu.databaseNames = none) → Verdict rep earlier session gdu (.move gdu)

/-- The table has what the log says, and each package has got its verdict. -/
structure Judged (rep : Rep) (s : St OtherInfo) : Prop where
  users : ∀ session, s.userBySession.lookup session = lastLogin s.log session
  verdict : ∀ later e earlier, s.log = later ++ e :: earlier →
    Verdict rep earlier e.session e.gdu e.outcome

theorem lastLogin_silent {e : Event OtherInfo} (h : e.login = none) (log : List (Event OtherInfo)) :
    lastLogin (e :: log) = lastLogin log := by
  funext session
  rw [lastLogin, List.findSome?_cons, h, ite_self]
  rfl

theorem lastLogin_login {e : Event OtherInfo} {user : String} (h : e.login = some user)
    (log : List (Event OtherInfo)) (session : Session) :
    lastLogin (e :: log) session =
      if e.session = session then some user else lastLogin log session := by
  rw [lastLogin, List.findSome?_cons, h]
  by_cases hsession : e.session = session
  · rw [if_pos hsession, if_pos hsession]
  · rw [if_neg hsession, if_neg hsession]
    rfl

/-- The databases of a search or a scan against those of the user who has logged in. -/
theorem verdict_databases {users : UserBySession} {log : List (Event OtherInfo)}
    {session : Session} (hlog : users.lookup session = lastLogin log session)
    {gdu : Gdu OtherInfo} {databaseNames : List String} {outcome : Outcome OtherInfo}
    (hnames : gdu.databaseNames = some databaseNames)
    (hmove : deniedDatabase rep session users databaseNames = none → outcome = .move (some gdu))
    (hreject : ∀ db, deniedDatabase rep session users databaseNames = some db →
      outcome = gdu.reject .accessToSpecifiedDatabaseDenied db) :
    Verdict rep log session (some gdu) outcome := by
  cases hdenied : deniedDatabase rep session users databaseNames with
  | none =>
    rw [hmove hdenied]
    refine .permitted hnames fun user huser => ?_
    exact deniedDatabase_none.mp hdenied user (hlog.trans huser)
  | some db =>
    obtain ⟨hmem, user, huser, hnot⟩ := deniedDatabase_some hdenied
    rw [hreject db hdenied]
    exact .denied hnames hmem (hlog.symm.trans huser) hnot

theorem process_verdict (yaz : YazOi OtherInfo) (huser : rep.gotUserRegister = true) {users : UserBySession}
    {log : List (Event OtherInfo)} (hlog : ∀ session, users.lookup session = lastLogin log session)
    (session : Session) (gdu : Option (Gdu OtherInfo)) :
    Verdict rep log session gdu (process yaz rep session users gdu).2 ∧
      ∀ session', (process yaz rep session users gdu).1.lookup session' =
        lastLogin (⟨session, gdu, (process yaz rep session users gdu).2⟩ :: log) session' := by
  have hsilent (outcome : Outcome OtherInfo)
      (h : (⟨session, gdu, outcome⟩ : Event OtherInfo).login = none) (session' : Session) :
      users.lookup session' = lastLogin (⟨session, gdu, outcome⟩ :: log) session' := by
    rw [lastLogin_silent h]
    exact hlog session'
  rw [process.eq_def, huser]
  cases gdu with
  | none =>
    have hother : ∀ req : InitRequest OtherInfo, (none : Option (Gdu OtherInfo)) ≠ some (.init req) :=
      fun req h => by cases h
    exact ⟨.other hother rfl, hsilent _ rfl⟩
  | some gdu =>
    cases gdu with
    | init req =>
      rcases processInit_cases rep session users req with
        ⟨hknows, hinit⟩ | ⟨hknows, addinfo, hinit⟩
      · simp only [hinit]
        refine ⟨.login hknows, fun session' => ?_⟩
        have hlogin : (⟨session, some (.init req), .move (some (.init req))⟩ :
            Event OtherInfo).login = some (getUser req).1 := rfl
        rw [lastLogin_login hlogin]
        by_cases hsame : session = session'
        · cases hsame
          rw [if_pos rfl]
          exact AList.lookup_insert _
        · rw [if_neg hsame, AList.lookup_insert_ne (Ne.symm hsame)]
          exact hlog session'
      · simp only [hinit]
        exact ⟨.unknown addinfo hknows, hsilent _ rfl⟩
    | search databaseNames =>
      refine ⟨verdict_databases (hlog session) rfl (fun h => ?_) fun db h => ?_, hsilent _ rfl⟩
      · simp only [processSearch, h]
      · simp only [processSearch, h, Gdu.reject]
    | scan databaseNames =>
      refine ⟨verdict_databases (hlog session) rfl (fun h => ?_) fun db h => ?_, hsilent _ rfl⟩
      · simp only [processScan, h]
      · simp only [processScan, h, Gdu.reject]
    | other encoding =>
      have hother : ∀ req : InitRequest OtherInfo, some (Gdu.other encoding) ≠ some (.init req) :=
        fun req h => by cases h
      exact ⟨.other hother rfl, hsilent _ rfl⟩

theorem judged_step (huser : rep.gotUserRegister = true) {a : Label OtherInfo} (h : Judged rep s)
    (hs : step yaz rep s a = some s') : Judged rep s' := by
  cases hs
  obtain ⟨hverdict, husers⟩ := process_verdict yaz huser h.users a.session a.gdu
  refine ⟨husers, fun later e earlier hlog => ?_⟩
  cases later with
  | nil =>
    cases hlog
    exact hverdict
  | cons e' later => exact h.verdict later e earlier (List.cons.inj hlog).2

theorem judged_of_reach (huser : rep.gotUserRegister = true)
    (h : Reach (step yaz rep) init Any s) : Judged rep s := by
  refine h.invariant (fun s hs => ⟨fun session => ?_, fun later e earlier hlog => ?_⟩)
    fun s a s' hi _ hs => judged_step huser hi hs
  · rw [hs.1, hs.2]
    exact AList.lookup_empty _
  · rw [hs.2] at hlog
    cases later <;> cases hlog

theorem login_some {e : Event OtherInfo} {user : String} (h : e.login = some user) :
    ∃ req request, e.gdu = some (.init req) ∧ e.outcome = .move request ∧
      (getUser req).1 = user := by
  rw [Event.login] at h
  split at h
  · rename_i req request hgdu houtcome
    exact ⟨req, request, hgdu, houtcome, Option.some.inj h⟩
  · cases h

theorem verdict_login {earlier : List (Event OtherInfo)} {session : Session}
    {req : InitRequest OtherInfo} {request : Option (Gdu OtherInfo)}
    (h : Verdict rep earlier session (some (.init req)) (.move request)) : rep.Knows req := by
  cases h with
  | login hknows => exact hknows
  | permitted hnames hdbs => cases hnames
  | other hnone hnames => exact absurd rfl (hnone req)

/-- Who has logged in has done it with the password. -/
theorem lastLogin_known (h : Judged rep s) {later log : List (Event OtherInfo)}
    (hlog : s.log = later ++ log) {session : Session} {user : String}
    (huser : lastLogin log session = some user) :
    ∃ e ∈ log, e.session = session ∧ ∃ req, e.gdu = some (.init req) ∧ rep.Knows req ∧
      (getUser req).1 = user := by
  obtain ⟨e, he, hlogin⟩ := List.exists_of_findSome?_eq_some huser
  by_cases hsession : e.session = session
  · rw [if_pos hsession] at hlogin
    refine ⟨e, he, hsession, ?_⟩
    obtain ⟨before, after, rfl⟩ := List.append_of_mem he
    have hverdict := h.verdict (later ++ before) e after (hlog.trans (List.append_assoc _ _ _).symm)
    obtain ⟨req, request, hgdu, houtcome, rfl⟩ := login_some hlogin
    rw [hgdu, houtcome] at hverdict
    exact ⟨req, hgdu, verdict_login hverdict, rfl⟩
  · rw [if_neg hsession] at hlogin
    cases hlogin

theorem verdict_moved {earlier : List (Event OtherInfo)} {session : Session}
    {gdu : Gdu OtherInfo} {outcome : Outcome OtherInfo} {databaseNames : List String}
    (h : Verdict rep earlier session (some gdu) outcome)
    (hnames : gdu.databaseNames = some databaseNames) :
    outcome = .move (some gdu) ↔ ∀ user, lastLogin earlier session = some user →
      ∀ db ∈ databaseNames, rep.Permits user db := by
  cases h with
  | login hknows => cases hnames
  | unknown addinfo hknows => cases hnames
  | @permitted _ databaseNames' hnames' hdbs =>
    cases hnames.symm.trans hnames'
    exact ⟨fun _ => hdbs, fun _ => rfl⟩
  | @denied _ databaseNames' user db hnames' hmem hlast hnot =>
    cases hnames.symm.trans hnames'
    refine ⟨fun hmove => ?_, fun hdbs => absurd (hdbs user hlast db hmem) hnot⟩
    cases gdu <;> cases hmove
  | other hnone hnames' => cases hnames.symm.trans hnames'

/-- Every run with a user register: an init is passed on if it has the name and the password of a
user; a search or a scan, if each of its databases is the user's who has logged in last on its
session, with that password, or if nobody has; everything else always. -/
theorem access_control (huser : rep.gotUserRegister = true)
    (h : Reach (step yaz rep) init Any s) {later earlier : List (Event OtherInfo)}
    {e : Event OtherInfo} (hlog : s.log = later ++ e :: earlier) :
    Verdict rep earlier e.session e.gdu e.outcome ∧
    (∀ gdu databaseNames, e.gdu = some gdu → gdu.databaseNames = some databaseNames →
      (e.outcome = .move (some gdu) ↔ ∀ user, lastLogin earlier e.session = some user →
        ∀ db ∈ databaseNames, rep.Permits user db)) ∧
    ∀ user, lastLogin earlier e.session = some user → ∃ e' ∈ earlier, e'.session = e.session ∧
      ∃ req, e'.gdu = some (.init req) ∧ rep.Knows req ∧ (getUser req).1 = user := by
  have hjudged := judged_of_reach huser h
  have hverdict := hjudged.verdict later e earlier hlog
  refine ⟨hverdict, fun gdu databaseNames hgdu hnames => ?_, fun user hlast => ?_⟩
  · rw [hgdu] at hverdict
    exact verdict_moved hverdict hnames
  · exact lastLogin_known hjudged (hlog.trans (List.append_cons _ _ _)) hlast

/-! ### A session that logs in, and one that does not -/

def twoUsers : Rep where
  gotUserRegister := true
  gotTargetRegister := false
  userRegister := ((∅ : Table String PasswordAndDBs).insert "ann" ⟨"pw", ["Marc"]⟩).insert "root"
    ⟨"pw", ["*"]⟩
  targetsByUser := ∅
  discardUnauthorisedTargets := false

def logins : List (Label (List YazOi.Unit)) :=
  [⟨1, some (.init ⟨some (.open "ann/pw"), []⟩)⟩, ⟨2, some (.search ["secret"])⟩,
    ⟨1, some (.search ["MARC", "secret"])⟩]

def loggedIn : St (List YazOi.Unit) :=
  (run (step .units twoUsers) ⟨∅, []⟩ logins).getD ⟨∅, []⟩

theorem access_control_logins :
    lastLogin loggedIn.log.tail 1 = some "ann" ∧
      Verdict twoUsers loggedIn.log.tail 1 (some (.search ["MARC", "secret"]))
        (.rejectSearch .accessToSpecifiedDatabaseDenied "secret") := by
  have hinit : init (⟨∅, []⟩ : St (List YazOi.Unit)) := ⟨rfl, rfl⟩
  have hrun : run (step .units twoUsers) ⟨∅, []⟩ logins = some loggedIn := rfl
  have hreach : Reach (step .units twoUsers) init Any loggedIn :=
    (Reach.start hinit).of_run (runOk_any _ _) hrun
  have hlog : loggedIn.log = [] ++ ⟨1, some (.search ["MARC", "secret"]),
      .rejectSearch .accessToSpecifiedDatabaseDenied "secret"⟩ :: loggedIn.log.tail := rfl
  exact ⟨rfl, (access_control rfl hreach hlog).1⟩

end AuthSimple
end Metaproxy
