import Metaproxy.Lib.Table
import Metaproxy.OtherInfo
import Metaproxy.Util

/-!
# AuthSimple

`filter_auth_simple.cpp`: what it lets through, and which virtual hosts an init that it passes on
asks for.

* `checkTargets_moved` — the target register without a user register: the forwarded request names
  the authorised hosts of the client, and after them what is left in its `otherInfo`.
* `targets_enforced_iff` — when the register is enforced. With a user register it is never looked
  at; without one, units that repeat a category value can bring hosts back.
-/

namespace Metaproxy
namespace AuthSimple

open Lib

variable {OtherInfo : Type*}

inductive IdAuthentication where
  | open (s : String)
  | idPass (userId password : Option String)
  | other (encoding : List UInt8)
deriving DecidableEq, Repr

structure InitRequest (OtherInfo : Type*) where
  idAuthentication : Option IdAuthentication
  otherInfo : OtherInfo

inductive Gdu (OtherInfo : Type*) where
  | init (req : InitRequest OtherInfo)
  | search (databaseNames : List String)
  | scan (databaseNames : List String)
  /-- Another Z39.50 request. -/
  | other (encoding : List UInt8)

structure PasswordAndDBs where
  password : String
  dbs : List String
deriving DecidableEq, Repr

/-- What `configure` sets. -/
structure Rep where
  gotUserRegister : Bool
  gotTargetRegister : Bool
  userRegister : Table String PasswordAndDBs
  targetsByUser : Table String (List String)
  discardUnauthorisedTargets : Bool

abbrev Session := Nat

abbrev UserBySession := Table Session String

inductive Outcome (OtherInfo : Type*) where
  | move (request : Option (Gdu OtherInfo))
  /-- The session is closed after each of these. -/
  | rejectInit (err : Bib1) (addinfo : String)
  | rejectSearch (err : Bib1) (addinfo : String)
  | rejectScan (err : Bib1) (addinfo : String)

/-- User and password. -/
def getUser (req : InitRequest OtherInfo) : String × String :=
  match req.idAuthentication with
  | some (.open s) =>
    let user := s.toList.takeWhile (· ≠ '/')
    match s.toList.dropWhile (· ≠ '/') with
    | [] => (s, "")
    | _ :: password => (String.ofList user, String.ofList password)
  | some (.idPass userId password) => (userId.getD "", password.getD "")
  | _ => ("", "")

def contains (list : List String) (thing : String) : Bool :=
  list.any fun i => Util.databaseNameNormalize i = Util.databaseNameNormalize thing

def rejectInit (err : Option Bib1) (addinfo : String) : Outcome OtherInfo :=
  .rejectInit (err.getD .initAcAuthenticationSystemError) addinfo

def processInit (rep : Rep) (session : Session) (users : UserBySession)
    (req : InitRequest OtherInfo) : UserBySession × Outcome OtherInfo :=
  let (user, password) := getUser req
  if user = "" then (users, rejectInit none "no credentials supplied")
  else
    match rep.userRegister.lookup user with
    | some pdbs =>
      if pdbs.password = password then (users.insert session user, .move (some (.init req)))
      else (users, rejectInit none "username/password combination rejected")
    | none => (users, rejectInit none "username/password combination rejected")

/-- The databases of a search or a scan: the first one that the user may not use, if any. -/
def deniedDatabase (rep : Rep) (session : Session) (users : UserBySession)
    (databaseNames : List String) : Option String :=
  match users.lookup session with
  | none => none
  | some user =>
    let dbs := ((rep.userRegister.lookup user).map PasswordAndDBs.dbs).getD []
    databaseNames.find? fun db => !contains dbs db && !contains dbs "*"

def processSearch (rep : Rep) (session : Session) (users : UserBySession)
    (databaseNames : List String) : Outcome OtherInfo :=
  match deniedDatabase rep session users databaseNames with
  | some db => .rejectSearch .accessToSpecifiedDatabaseDenied db
  | none => .move (some (.search databaseNames))

def processScan (rep : Rep) (session : Session) (users : UserBySession)
    (databaseNames : List String) : Outcome OtherInfo :=
  match deniedDatabase rep session users databaseNames with
  | some db => .rejectScan .accessToSpecifiedDatabaseDenied db
  | none => .move (some (.scan databaseNames))

/-- `targetsByUser[user]`, to which an unknown user is added with no targets. -/
def Rep.authorisedTargets (rep : Rep) (user : String) : List String :=
  (rep.targetsByUser.lookup user).getD []

/-- The loop of `check_targets`: the targets that stay, or the one the init is rejected for. -/
def keepTargets (authorisedTargets : List String) (discard : Bool) :
    List String → Except String (List String)
  | [] => .ok []
  | target :: targets =>
    if contains authorisedTargets target || contains authorisedTargets "*" then
      (keepTargets authorisedTargets discard targets).map (target :: ·)
    else if discard then keepTargets authorisedTargets discard targets
    else .error target

def checkTargets (yaz : YazOi OtherInfo) (rep : Rep) (req : InitRequest OtherInfo) :
    Outcome OtherInfo :=
  let authorisedTargets := rep.authorisedTargets (getUser req).1
  let (targets, otherInfo) := yaz.removeVhostOtherinfo req.otherInfo
  match keepTargets authorisedTargets rep.discardUnauthorisedTargets targets with
  | .error target => rejectInit (some .accessToSpecifiedDatabaseDenied) target
  | .ok [] => rejectInit (some .accessToSpecifiedDatabaseDenied) "all databases"
  | .ok targets =>
    .move (some (.init { req with otherInfo := yaz.setVhostOtherinfo otherInfo targets }))

/-- `none` for a package without a Z39.50 request. -/
def process (yaz : YazOi OtherInfo) (rep : Rep) (session : Session) (users : UserBySession)
    (gdu : Option (Gdu OtherInfo)) : UserBySession × Outcome OtherInfo :=
  match rep.gotUserRegister, gdu with
  | _, none => (users, .move none)
  | true, some (.init req) => processInit rep session users req
  | true, some (.search databaseNames) => (users, processSearch rep session users databaseNames)
  | true, some (.scan databaseNames) => (users, processScan rep session users databaseNames)
  | false, some (.init req) =>
    if rep.gotTargetRegister then (users, checkTargets yaz rep req)
    else (users, .move (some (.init req)))
  | _, some gdu => (users, .move (some gdu))

/-! ## What the register authorises -/

/-- The register has the target for the user, up to ASCII case, or `*`. -/
def Rep.Authorises (rep : Rep) (user target : String) : Prop :=
  ∃ i ∈ rep.authorisedTargets user,
    Util.databaseNameNormalize i = Util.databaseNameNormalize target ∨
      Util.databaseNameNormalize i = "*"

/-- What the target register promises of an init that is passed on as `forwarded`. -/
structure Enforced (yaz : YazOi OtherInfo) (rep : Rep) (req forwarded : InitRequest OtherInfo) :
    Prop where
  authorised : ∀ target ∈ yaz.getVhostOtherinfo forwarded.otherInfo,
    rep.Authorises (getUser req).1 target
  nonempty : yaz.getVhostOtherinfo forwarded.otherInfo ≠ []
  same : rep.discardUnauthorisedTargets = false →
    yaz.getVhostOtherinfo forwarded.otherInfo = yaz.getVhostOtherinfo req.otherInfo

variable {yaz : YazOi OtherInfo} {rep : Rep} {req forwarded : InitRequest OtherInfo}

theorem contains_star_iff (list : List String) :
    contains list "*" = true ↔ ∃ i ∈ list, Util.databaseNameNormalize i = "*" := by
  have hstar : Util.databaseNameNormalize "*" = "*" := by decide
  simp [contains, hstar]

theorem authorises_iff {user target : String} :
    (contains (rep.authorisedTargets user) target ||
      contains (rep.authorisedTargets user) "*") = true ↔ rep.Authorises user target := by
  rw [Bool.or_eq_true, contains_star_iff]
  simp only [contains, List.any_eq_true, decide_eq_true_eq, Rep.Authorises]
  constructor
  · rintro (⟨i, hi, heq⟩ | ⟨i, hi, heq⟩)
    · exact ⟨i, hi, .inl heq⟩
    · exact ⟨i, hi, .inr heq⟩
  · rintro ⟨i, hi, heq | heq⟩
    · exact .inl ⟨i, hi, heq⟩
    · exact .inr ⟨i, hi, heq⟩

/-- The targets of the client that the user may have. -/
def Rep.authorisedOf (rep : Rep) (user : String) (targets : List String) : List String :=
  targets.filter fun target => contains (rep.authorisedTargets user) target ||
    contains (rep.authorisedTargets user) "*"

theorem mem_authorisedOf {user target : String} {targets : List String}
    (h : target ∈ rep.authorisedOf user targets) : rep.Authorises user target :=
  authorises_iff.mp (List.mem_filter.mp h).2

/-- The loop keeps the authorised targets, which are all of them when it may discard none. -/
theorem keepTargets_ok {user : String} {discard : Bool} {targets kept : List String}
    (h : keepTargets (rep.authorisedTargets user) discard targets = .ok kept) :
    kept = rep.authorisedOf user targets ∧ (discard = false → kept = targets) := by
  induction targets generalizing kept with
  | nil =>
    cases h
    exact ⟨rfl, fun _ => rfl⟩
  | cons target targets ih =>
    rw [keepTargets] at h
    cases hauth : contains (rep.authorisedTargets user) target ||
        contains (rep.authorisedTargets user) "*" with
    | true =>
      rw [hauth, if_pos rfl] at h
      cases hrest : keepTargets (rep.authorisedTargets user) discard targets with
      | error t =>
        rw [hrest] at h
        cases h
      | ok kept' =>
        rw [hrest] at h
        cases h
        obtain ⟨hkept, hall⟩ := ih hrest
        refine ⟨?_, fun hd => by rw [hall hd]⟩
        rw [Rep.authorisedOf, List.filter_cons, if_pos hauth]
        exact congrArg _ hkept
    | false =>
      rw [hauth, if_neg (by simp)] at h
      cases discard with
      | false => cases h
      | true =>
        refine ⟨?_, fun hd => by cases hd⟩
        rw [Rep.authorisedOf, List.filter_cons, if_neg (by simp [hauth])]
        exact (ih h).1

/-! ## The target register alone -/

/-- What is found under a category value when the first unit of each value from 1 to `n + 1` has
been taken out. -/
def leftUnder (yaz : YazOi OtherInfo) (otherInfo : OtherInfo) (n cat : Nat) : Option String :=
  if 1 ≤ cat ∧ cat ≤ 1 + n then (yaz.infos otherInfo cat).tail.head?.join
  else (yaz.infos otherInfo cat).head?.join

theorem get_removed (otherInfo : OtherInfo) (cat : Nat) :
    yaz.get (yaz.removeVhostOtherinfo otherInfo).2 cat =
      leftUnder yaz otherInfo (yaz.getVhostOtherinfo otherInfo).length cat := by
  rw [yaz.get_eq, YazOi.infos_removeVhosts, leftUnder]
  by_cases h : 1 ≤ cat ∧ cat ≤ 1 + (yaz.getVhostOtherinfo otherInfo).length
  · rw [if_pos h, if_pos (by omega)]
  · rw [if_neg h, if_neg (by omega)]

/-- The authorised hosts of an init. -/
def authorisedHosts (yaz : YazOi OtherInfo) (rep : Rep) (req : InitRequest OtherInfo) :
    List String :=
  rep.authorisedOf (getUser req).1 (yaz.getVhostOtherinfo req.otherInfo)

/-- Behind the hosts that were kept, the forwarded init names what the removal left under the
following category values. -/
theorem checkTargets_moved (h : checkTargets yaz rep req = .move (some (.init forwarded))) :
    (∃ rest, yaz.getVhostOtherinfo forwarded.otherInfo = authorisedHosts yaz rep req ++ rest ∧
      YazOi.Reads
        (leftUnder yaz req.otherInfo (yaz.getVhostOtherinfo req.otherInfo).length)
        (1 + (authorisedHosts yaz rep req).length) rest) ∧
    authorisedHosts yaz rep req ≠ [] ∧
    (rep.discardUnauthorisedTargets = false →
      authorisedHosts yaz rep req = yaz.getVhostOtherinfo req.otherInfo) := by
  have hremoved : (yaz.removeVhostOtherinfo req.otherInfo).1 =
      yaz.getVhostOtherinfo req.otherInfo := YazOi.removed_eq _
  unfold checkTargets at h
  simp only [hremoved] at h
  cases hkeep : keepTargets (rep.authorisedTargets (getUser req).1)
      rep.discardUnauthorisedTargets (yaz.getVhostOtherinfo req.otherInfo) with
  | error target =>
    rw [hkeep] at h
    cases h
  | ok kept =>
    obtain ⟨hkept, hall⟩ := keepTargets_ok hkeep
    have hhosts : authorisedHosts yaz rep req = kept := hkept.symm
    rw [hkeep] at h
    rw [hhosts]
    cases kept with
    | nil => cases h
    | cons target targets =>
      cases h
      refine ⟨?_, List.cons_ne_nil _ _, hall⟩
      obtain ⟨rest, hvhosts, hreads⟩ := yaz.get_setVhosts
        (yaz.removeVhostOtherinfo req.otherInfo).2 (target :: targets)
      exact ⟨rest, hvhosts, hreads.congr fun cat _ => get_removed req.otherInfo cat⟩

/-- When an init that is passed on has only hosts that the register authorises: with a user
register, when the client asks for no others; without one, when the units left behind the
authorised hosts have none but authorised hosts, and with nothing to discard none at all. -/
def RegisterHolds (yaz : YazOi OtherInfo) (rep : Rep) (req : InitRequest OtherInfo) : Prop :=
  if rep.gotUserRegister then
    yaz.getVhostOtherinfo req.otherInfo ≠ [] ∧
      ∀ target ∈ yaz.getVhostOtherinfo req.otherInfo, rep.Authorises (getUser req).1 target
  else
    ∀ rest, YazOi.Reads
        (leftUnder yaz req.otherInfo (yaz.getVhostOtherinfo req.otherInfo).length)
        (1 + (authorisedHosts yaz rep req).length) rest →
      (∀ target ∈ rest, rep.Authorises (getUser req).1 target) ∧
        (rep.discardUnauthorisedTargets = false → rest = [])

theorem processInit_moved {session : Session} {users users' : UserBySession}
    (h : processInit rep session users req = (users', .move (some (.init forwarded)))) :
    forwarded = req := by
  unfold processInit at h
  simp only at h
  split at h
  · cases h
  · split at h
    · split at h
      · cases h
        rfl
      · cases h
    · cases h

theorem enforced_userRegister :
    Enforced yaz rep req req ↔ yaz.getVhostOtherinfo req.otherInfo ≠ [] ∧
      ∀ target ∈ yaz.getVhostOtherinfo req.otherInfo, rep.Authorises (getUser req).1 target := by
  constructor
  · intro h
    exact ⟨h.nonempty, h.authorised⟩
  · rintro ⟨hne, hauth⟩
    exact ⟨hauth, hne, fun _ => rfl⟩

theorem enforced_checkTargets
    (h : checkTargets yaz rep req = .move (some (.init forwarded))) :
    Enforced yaz rep req forwarded ↔
      ∀ rest, YazOi.Reads
          (leftUnder yaz req.otherInfo (yaz.getVhostOtherinfo req.otherInfo).length)
          (1 + (authorisedHosts yaz rep req).length) rest →
        (∀ target ∈ rest, rep.Authorises (getUser req).1 target) ∧
          (rep.discardUnauthorisedTargets = false → rest = []) := by
  obtain ⟨⟨rest, hvhosts, hreads⟩, hne, hall⟩ := checkTargets_moved h
  constructor
  · intro henf rest' hreads'
    cases hreads.unique hreads'
    refine ⟨fun target ht => henf.authorised target ?_, fun hd => ?_⟩
    · rw [hvhosts]
      exact List.mem_append_right _ ht
    · have hsame := henf.same hd
      rw [hvhosts, ← hall hd] at hsame
      exact List.append_right_eq_self.mp hsame
  · intro hrest
    obtain ⟨hauth, hnil⟩ := hrest rest hreads
    refine ⟨fun target ht => ?_, ?_, fun hd => ?_⟩
    · rw [hvhosts] at ht
      rcases List.mem_append.mp ht with ht | ht
      · exact mem_authorisedOf ht
      · exact hauth target ht
    · rw [hvhosts]
      exact fun hnil => hne (List.append_eq_nil_iff.mp hnil).1
    · rw [hvhosts, hnil hd, List.append_nil]
      exact hall hd

/-- An init that is passed on meets the target register exactly under `RegisterHolds`. -/
theorem targets_enforced_iff (yaz : YazOi OtherInfo) (rep : Rep) (session : Session)
    (users users' : UserBySession) (req forwarded : InitRequest OtherInfo)
    (htarget : rep.gotTargetRegister = true)
    (h : process yaz rep session users (some (.init req)) =
      (users', .move (some (.init forwarded)))) :
    Enforced yaz rep req forwarded ↔ RegisterHolds yaz rep req := by
  unfold RegisterHolds
  cases huser : rep.gotUserRegister with
  | true =>
    have hinit : processInit rep session users req =
        (users', .move (some (.init forwarded))) := by
      simpa only [process, huser] using h
    cases processInit_moved hinit
    rw [if_pos rfl]
    exact enforced_userRegister
  | false =>
    have hcheck : checkTargets yaz rep req = .move (some (.init forwarded)) := by
      simp only [process, huser, htarget, if_true] at h
      exact congrArg Prod.snd h
    rw [if_neg (by simp)]
    exact enforced_checkTargets hcheck

/-- The user `pat` has the target `a`; user and password are as in the user register. -/
def patRep (gotUserRegister discardUnauthorisedTargets : Bool) : Rep where
  gotUserRegister
  gotTargetRegister := true
  userRegister := (∅ : Table String PasswordAndDBs).insert "pat" ⟨"pw", ["*"]⟩
  targetsByUser := (∅ : Table String (List String)).insert "pat" ["a"]
  discardUnauthorisedTargets

def patInit (otherInfo : List YazOi.Unit) : InitRequest (List YazOi.Unit) :=
  ⟨some (.idPass (some "pat") (some "pw")), otherInfo⟩

theorem targets_enforced_iff_a :
    Enforced YazOi.units (patRep false true) (patInit [(1, some "a")])
        (patInit [(1, some "a")]) ↔
      RegisterHolds YazOi.units (patRep false true) (patInit [(1, some "a")]) :=
  targets_enforced_iff YazOi.units (patRep false true) 1 ∅ ∅ (patInit [(1, some "a")])
    (patInit [(1, some "a")]) rfl rfl

/-! ## Hosts that get through -/

/-- The hosts of the init that is passed on, if it is. -/
def forwardedHosts (rep : Rep) (req : InitRequest (List YazOi.Unit)) : Option (List String) :=
  match (process YazOi.units rep 1 ∅ (some (.init req))).2 with
  | .move (some (.init forwarded)) => some (YazOi.units.getVhostOtherinfo forwarded.otherInfo)
  | _ => none

/-- With a user register `pat` reaches `b`. Without it, `b` comes back as the second unit of a
category value: behind the one authorised host, or behind a unit that is no string. -/
theorem targets_not_enforced :
    forwardedHosts (patRep true false) (patInit [(1, some "b")]) = some ["b"] ∧
    forwardedHosts (patRep false true) (patInit [(1, some "a"), (2, some "c"), (2, some "b")]) =
      some ["a", "b"] ∧
    forwardedHosts (patRep false false) (patInit [(1, some "a"), (2, none), (2, some "b")]) =
      some ["a", "b"] ∧
    ∀ got discard, ¬ (patRep got discard).Authorises "pat" "b" := by
  refine ⟨by decide, by decide, by decide, ?_⟩
  rintro got discard ⟨i, hi, heq⟩
  have htargets : (patRep got discard).authorisedTargets "pat" = ["a"] := rfl
  rw [htargets, List.mem_singleton] at hi
  subst hi
  revert heq
  decide

end AuthSimple
end Metaproxy
