import Metaproxy.Zoom.Proxies
import Metaproxy.Zoom.Search

/-!
# Zoom.Retries

How often a search is tried. `search_ends_iff` says when there is a bound, whatever the Torus, the
targets and the proxies do: when the step through the lists of the `proxy` arguments comes to 0.

* `attempt_again` — all that is behind another attempt.
* `searchLoop_ends`, `tries_eq` — from an attempt without a connection on, the step decides.
-/

namespace Metaproxy
namespace Zoom

open Lib

/-! ## Arguments -/

def proxyLists (yaz : Yaz) (sessionRealm : List Char) (args : List (List Char × List Char)) :
    List (List (List Char)) :=
  (args.filter fun p => argName sessionRealm p.1 = some .proxy).map fun p => yaz.strsplit p.2

section Args

variable (yaz : Yaz) (torusContentUrl : List Char) {sessionRealm : List Char}
  (connectionReuse : Bool)

theorem proxyLists_cons (sessionRealm : List Char) (p : List Char × List Char)
    (args : List (List Char × List Char)) :
    proxyLists yaz sessionRealm (p :: args) =
      if argName sessionRealm p.1 = some .proxy then
        yaz.strsplit p.2 :: proxyLists yaz sessionRealm args
      else proxyLists yaz sessionRealm args := by
  by_cases h : argName sessionRealm p.1 = some .proxy
  · simp [proxyLists, h]
  · simp [proxyLists, h]

theorem add_proxy (args : Args) {p : List Char × List Char}
    (h : argName sessionRealm p.1 = some .proxy) :
    args.add yaz torusContentUrl sessionRealm connectionReuse p =
      .ok (args.addProxies (yaz.strsplit p.2) connectionReuse) := by
  rw [Args.add, h]

theorem add_unknown (args : Args) {p : List Char × List Char}
    (h : argName sessionRealm p.1 = none) :
    args.add yaz torusContentUrl sessionRealm connectionReuse p = .error (badArgument p.1) := by
  rw [Args.add, h]

theorem add_other (args : Args) {p : List Char × List Char} {name : ArgName}
    (h : argName sessionRealm p.1 = some name) (hname : name ≠ .proxy) :
    ∃ args', args.add yaz torusContentUrl sessionRealm connectionReuse p = .ok args' ∧
      args'.proxy = args.proxy ∧ args'.proxyStep = args.proxyStep := by
  rw [Args.add, h]
  cases name with
  | proxy => exact absurd rfl hname
  | _ => exact ⟨_, rfl, rfl, rfl⟩

/-- Without a connection to use again, the proxy and its step are chosen from the lists. -/
theorem addArgs_choose (l : List (List Char × List Char)) :
    ∀ (args : Args) (p : Option (List Char) × Nat), args.proxy = p.1.getD [] →
      args.proxyStep = p.2 → (∀ q ∈ l, argName sessionRealm q.1 ≠ none) →
      ∃ args', l.foldlM (Args.add yaz torusContentUrl sessionRealm false) args = .ok args' ∧
        args'.proxy = ((proxyLists yaz sessionRealm l).foldl chooseNext p).1.getD [] ∧
        args'.proxyStep = ((proxyLists yaz sessionRealm l).foldl chooseNext p).2 := by
  induction l with
  | nil =>
    intro args p hproxy hstep _
    exact ⟨args, rfl, hproxy, hstep⟩
  | cons q l ih =>
    intro args p hproxy hstep hknown
    have hrest : ∀ q' ∈ l, argName sessionRealm q'.1 ≠ none :=
      fun q' hq' => hknown q' (List.mem_cons_of_mem q hq')
    rw [proxyLists_cons, List.foldlM_cons]
    cases hname : argName sessionRealm q.1 with
    | none => exact absurd hname (hknown q List.mem_cons_self)
    | some name =>
      by_cases hp : name = .proxy
      · subst hp
        rw [add_proxy yaz torusContentUrl false args hname, if_pos rfl, List.foldl_cons]
        refine ih _ (chooseNext p (yaz.strsplit q.2)) ?_ ?_ hrest
        · show (nextProxy _ args.proxyStep).1.getD args.proxy = ((nextProxy _ p.2).1.or p.1).getD []
          rw [hproxy, hstep]
          cases (nextProxy (yaz.strsplit q.2) p.2).1 with
          | none => rfl
          | some proxy => rfl
        · show (nextProxy _ args.proxyStep).2 = (nextProxy _ p.2).2
          rw [hstep]
      · obtain ⟨args', hadd, hproxy', hstep'⟩ := add_other yaz torusContentUrl false args hname hp
        rw [hadd, if_neg (by simpa using hp)]
        exact ih args' p (hproxy'.trans hproxy) (hstep'.trans hstep) hrest

/-- With one, the step is the one behind its proxy. -/
theorem addArgs_reuse (l : List (List Char × List Char)) :
    ∀ args : Args, (∀ q ∈ l, argName sessionRealm q.1 ≠ none) →
      ∃ args', l.foldlM (Args.add yaz torusContentUrl sessionRealm true) args = .ok args' ∧
        args'.proxyStep = (proxyLists yaz sessionRealm l).foldl
          (fun _ dstr => stepAfter dstr args.proxy) args.proxyStep := by
  induction l with
  | nil =>
    intro args _
    exact ⟨args, rfl, rfl⟩
  | cons q l ih =>
    intro args hknown
    have hrest : ∀ q' ∈ l, argName sessionRealm q'.1 ≠ none :=
      fun q' hq' => hknown q' (List.mem_cons_of_mem q hq')
    rw [proxyLists_cons, List.foldlM_cons]
    cases hname : argName sessionRealm q.1 with
    | none => exact absurd hname (hknown q List.mem_cons_self)
    | some name =>
      by_cases hp : name = .proxy
      · subst hp
        rw [add_proxy yaz torusContentUrl true args hname, if_pos rfl, List.foldl_cons]
        exact ih (args.addProxies (yaz.strsplit q.2) true) hrest
      · obtain ⟨args', hadd, hproxy', hstep'⟩ := add_other yaz torusContentUrl true args hname hp
        rw [hadd, if_neg (by simpa using hp), ← hproxy', ← hstep']
        exact ih args' hrest

theorem addArgs_unknown {l : List (List Char × List Char)} {q : List Char × List Char}
    (hq : q ∈ l) (hname : argName sessionRealm q.1 = none) :
    ∀ args : Args, ∃ error,
      l.foldlM (Args.add yaz torusContentUrl sessionRealm connectionReuse) args = .error error := by
  induction l with
  | nil => cases hq
  | cons q' l ih =>
    intro args
    rw [List.foldlM_cons]
    cases hadd : args.add yaz torusContentUrl sessionRealm connectionReuse q' with
    | error error => exact ⟨error, rfl⟩
    | ok args' =>
      rcases List.mem_cons.mp hq with rfl | hq
      · rw [add_unknown yaz torusContentUrl connectionReuse args hname] at hadd
        cases hadd
      · exact ih hq args'

end Args

/-! ## Attempts -/

section Attempts

variable (yaz : Yaz) (impl : Impl) (database : List Char)

/-- The arguments are all known ones. -/
def Known (sessionRealm : List Char) : Prop :=
  ∀ q ∈ inputArgs yaz database, argName sessionRealm q.1 ≠ none

def listed (sessionRealm : List Char) : List (List (List Char)) :=
  proxyLists yaz sessionRealm (inputArgs yaz database)

def IsExplain : Prop := torusDb database = "IR-Explain---1".toList

instance : Decidable (IsExplain database) := inferInstanceAs (Decidable (_ = _))

/-- The step that an attempt leaves for the next one. -/
def stepLeft (f : Frontend) (proxyStep : Nat) : Nat :=
  match f.connectionReuse database with
  | some b => (listed yaz database f.sessionRealm).foldl
      (fun _ dstr => stepAfter dstr b.proxy) proxyStep
  | none => advance (listed yaz database f.sessionRealm) proxyStep

variable {yaz impl database} {f : Frontend} {proxyStep : Nat}

theorem databaseArgs_unknown (impl : Impl) (f : Frontend) (proxyStep : Nat)
    (h : ¬ Known yaz database f.sessionRealm) :
    ∃ error, databaseArgs yaz impl f database proxyStep = .error error := by
  simp only [Known, not_forall, not_not] at h
  obtain ⟨q, hq, hname⟩ := h
  exact addArgs_unknown yaz impl.torusContentUrl _ hq hname _

theorem databaseArgs_known (impl : Impl) (f : Frontend) (proxyStep : Nat)
    (h : Known yaz database f.sessionRealm) :
    ∃ args, databaseArgs yaz impl f database proxyStep = .ok args ∧
      args.proxyStep = stepLeft yaz database f proxyStep ∧
      (f.connectionReuse database = none → args.proxy =
        (chooseProxy (listed yaz database f.sessionRealm) proxyStep).1.getD []) := by
  have hproxy : (Args.initial impl f database proxyStep).proxy =
      ((f.connectionReuse database).map Backend.proxy).getD [] := rfl
  unfold databaseArgs stepLeft
  cases hreuse : f.connectionReuse database with
  | none =>
    rw [hreuse] at hproxy
    obtain ⟨args, hargs, hproxy, hstep⟩ := addArgs_choose yaz impl.torusContentUrl
      (inputArgs yaz database) (.initial impl f database proxyStep) (none, proxyStep) hproxy rfl h
    exact ⟨args, hargs, hstep, fun _ => hproxy⟩
  | some b =>
    rw [hreuse] at hproxy
    obtain ⟨args, hargs, hstep⟩ := addArgs_reuse yaz impl.torusContentUrl
      (inputArgs yaz database) (.initial impl f database proxyStep) h
    rw [hproxy] at hstep
    exact ⟨args, hargs, hstep, nofun⟩

/-- A backend with which an attempt failed. -/
structure Used (yaz : Yaz) (database : List Char) (f : Frontend) (b : Backend) : Prop where
  known : Known yaz database f.sessionRealm
  reused : ∀ b0, f.connectionReuse database = some b0 →
    b.proxy = b0.proxy ∧ b.retryOnFailure = b0.retryOnFailure
  target : f.connectionReuse database = none → ¬ IsExplain database

/-- A backend comes with the step that is left. -/
inductive Obtains (yaz : Yaz) (database : List Char) (f : Frontend) (proxyStep : Nat) :
    Obtained → Prop where
  | none {f' : Frontend} {error : Diag} {step : Nat} :
      Obtains yaz database f proxyStep (.failed f' none error step)
  | explained {f' : Frontend} {res : Z3950.SearchResponse NamePlusRecord} :
      Obtains yaz database f proxyStep (.explained f' res)
  | failed {f' : Frontend} {b : Backend} {error : Diag} :
      f'.sessionRealm = f.sessionRealm → Used yaz database f b →
      Obtains yaz database f proxyStep
        (.failed f' (some b) error (stepLeft yaz database f proxyStep))
  | connected {f' : Frontend} {b : Backend} :
      f'.sessionRealm = f.sessionRealm → Used yaz database f b →
      Obtains yaz database f proxyStep (.connected f' b (stepLeft yaz database f proxyStep))

theorem explainSearch_obtains (impl : Impl) (f : Frontend) (proxyStep : Nat) (query : Query)
    (answer : Except (List Char) (List XmlNode)) :
    Obtains yaz database f proxyStep (explainSearch impl f database query answer) := by
  unfold explainSearch
  cases impl.explainXsp with
  | false => exact .none
  | true =>
    cases query with
    | type104 cql =>
      cases answer with
      | error addinfo => exact .none
      | ok doc => exact .explained
    | _ => exact .none

theorem obtains (impl : Impl) (f : Frontend) (query : Query) (a : Attempt) (proxyStep : Nat) :
    Obtains yaz database f proxyStep
      (getBackendFromDatabases yaz impl f database query a proxyStep) := by
  unfold getBackendFromDatabases
  by_cases hknown : Known yaz database f.sessionRealm
  · obtain ⟨args, hargs, hstep, -⟩ := databaseArgs_known impl f proxyStep hknown
    rw [hargs]
    simp only [hstep]
    cases hreuse : f.connectionReuse database with
    | some b =>
      have hused : Used yaz database f b := by
        refine ⟨hknown, ?_, ?_⟩
        · intro b0 hb0
          rw [hreuse] at hb0
          cases hb0
          exact ⟨rfl, rfl⟩
        · intro hnone
          rw [hreuse] at hnone
          cases hnone
      cases a.connect with
      | some error => exact .failed rfl hused
      | none => exact .connected rfl hused
    | none =>
      show Obtains yaz database f proxyStep (if IsExplain database then _ else _)
      by_cases hexplain : IsExplain database
      · rw [if_pos hexplain]
        exact explainSearch_obtains impl f proxyStep query a.explain
      · rw [if_neg hexplain]
        cases findSearchable impl args.torusUrl database a.torus with
        | error error => exact .none
        | ok sptr =>
          cases a.unusable with
          | some error => exact .none
          | none =>
            have hused : Used yaz database f (.new sptr database args) := by
              refine ⟨hknown, ?_, fun _ => hexplain⟩
              intro b0 hb0
              rw [hreuse] at hb0
              cases hb0
            show Obtains yaz database f proxyStep
              (f.newBackend (.new sptr database args) a (stepLeft yaz database f proxyStep))
            unfold Frontend.newBackend
            cases (Backend.new sptr database args).connect a with
            | some error => exact .failed rfl hused
            | none => exact .connected rfl hused
  · obtain ⟨error, herror⟩ := databaseArgs_unknown impl f proxyStep hknown
    rw [herror]
    exact .none

/-- How there is another attempt after one with the backend `b`. -/
inductive Again (yaz : Yaz) (database : List Char) (l : Loop) (b : Backend) : Loop → Prop where
  | nextProxy {f' : Frontend} : f'.backend = none →
      f'.sessionRealm = l.frontend.sessionRealm → b.proxy ≠ [] →
      stepLeft yaz database l.frontend l.proxyStep ≠ 0 →
      Again yaz database l b
        ⟨f', stepLeft yaz database l.frontend l.proxyStep, l.sameRetries, l.proxyRetries + 1⟩
  | sameProxy {f' : Frontend} : f'.backend = none →
      f'.sessionRealm = l.frontend.sessionRealm → b.retryOnFailure ≠ "0".toList →
      l.sameRetries = 0 → l.proxyRetries = 0 → Again yaz database l b ⟨f', 0, 1, 0⟩

theorem retry_again {l l' : Loop} {f' : Frontend} {b : Backend} {error : Diag} {checkProxy : Bool}
    (hrealm : f'.sessionRealm = l.frontend.sessionRealm)
    (h : retry { l with
        frontend := f'
        proxyStep := stepLeft yaz database l.frontend l.proxyStep } (some b) error checkProxy =
      .again l') : Again yaz database l b l' := by
  unfold retry at h
  simp only at h
  split at h
  · rename_i hproxy
    split at h
    · rename_i hstep
      cases h
      exact .nextProxy rfl hrealm hproxy.1 hstep
    · cases h
  · split at h
    · rename_i hsame
      obtain ⟨hretry, hzero, hproxies⟩ := hsame
      cases h
      rw [hzero, hproxies]
      exact .sameProxy rfl hrealm hretry hzero hproxies
    · cases h

theorem orRetry_again {r : Retried} {l : Loop} (h : orRetry r = .again l) : r = .again l := by
  cases r with
  | again l' =>
    cases h
    rfl
  | no f error => cases h

theorem searchBackend_again {sr : SearchRequest} {l l' : Loop} {b : Backend} {a : Attempt}
    (h : searchBackend yaz impl sr l b a = .again l') :
    ∃ error, retry { l with frontend := (l.frontend.search b).1 } (some (l.frontend.search b).2)
      error a.checkProxy = .again l' := by
  unfold searchBackend at h
  split at h
  · cases h
  · cases h
  · cases hsearch : a.search with
    | error error =>
      simp only [hsearch] at h
      exact ⟨error, orRetry_again h⟩
    | ok hits =>
      simp only [hsearch] at h
      cases h

theorem attempt_again {sr : SearchRequest} {l l' : Loop} {a : Attempt}
    (h : attempt yaz impl sr database l a = .again l') :
    ∃ b, Used yaz database l.frontend b ∧ Again yaz database l b l' := by
  have hobtains : Obtains yaz database l.frontend l.proxyStep _ :=
    obtains impl l.frontend sr.query a l.proxyStep
  unfold attempt proceed at h
  generalize getBackendFromDatabases yaz impl l.frontend database sr.query a l.proxyStep = o
    at h hobtains
  cases hobtains with
  | none => cases orRetry_again h
  | explained => cases h
  | @failed f' b error hrealm hused => exact ⟨b, hused, retry_again hrealm (orRetry_again h)⟩
  | @connected f' b hrealm hused =>
    obtain ⟨error, hretry⟩ := searchBackend_again h
    -- the result set is not what decides
    have hused : Used yaz database l.frontend (f'.search b).2 := ⟨hused.1, hused.2, hused.3⟩
    have hrealm : (f'.search b).1.sessionRealm = l.frontend.sessionRealm := hrealm
    exact ⟨_, hused, retry_again hrealm hretry⟩

/-! ## The loop -/

theorem connectionReuse_none {f : Frontend} (h : f.backend = none) :
    f.connectionReuse database = none := by
  rw [Frontend.connectionReuse, h]

theorem stepLeft_none {f : Frontend} (h : f.backend = none) (proxyStep : Nat) :
    stepLeft yaz database f proxyStep = advance (listed yaz database f.sessionRealm) proxyStep := by
  rw [stepLeft, connectionReuse_none h]

/-- An attempt without a connection, after another one. -/
structure Following (sessionRealm : List Char) (l : Loop) : Prop where
  backend : l.frontend.backend = none
  realm : l.frontend.sessionRealm = sessionRealm
  retried : l.sameRetries ≠ 0 ∨ l.proxyRetries ≠ 0

theorem following_again {sr : SearchRequest} {sessionRealm : List Char} {l l' : Loop} {a : Attempt}
    (hl : Following sessionRealm l) (h : attempt yaz impl sr database l a = .again l') :
    Following sessionRealm l' ∧ l'.sameRetries = l.sameRetries ∧ ¬ IsExplain database ∧
      advance (listed yaz database sessionRealm) l.proxyStep ≠ 0 ∧
      l'.proxyStep = advance (listed yaz database sessionRealm) l.proxyStep := by
  obtain ⟨b, hused, hagain⟩ := attempt_again h
  have hleft : stepLeft yaz database l.frontend l.proxyStep = _ :=
    stepLeft_none hl.backend l.proxyStep
  rw [hl.realm] at hleft
  cases hagain with
  | nextProxy hbackend hrealm _ hstep =>
    refine ⟨⟨hbackend, hrealm.trans hl.realm, .inr (Nat.succ_ne_zero _)⟩, rfl,
      hused.target (connectionReuse_none hl.backend), hleft ▸ hstep, hleft⟩
  | sameProxy _ _ _ hsame hproxies =>
    rcases hl.retried with h | h
    · exact absurd hsame h
    · exact absurd hproxies h

variable {sr : SearchRequest} {sessionRealm : List Char}

/-- The loop is over when no attempt comes after this one. -/
theorem searchLoop_cons {l : Loop} {a : Attempt} {attempts : List Attempt}
    (h : ∀ l', attempt yaz impl sr database l a = .again l' →
      (searchLoop yaz impl sr database l' attempts).isSome) :
    (searchLoop yaz impl sr database l (a :: attempts)).isSome := by
  rw [searchLoop]
  cases hattempt : attempt yaz impl sr database l a with
  | again l' => exact h l' hattempt
  | done out => rfl
  | aborted => rfl

theorem searchLoop_ends {n : Nat} :
    ∀ {l : Loop} {attempts : List Attempt}, Following sessionRealm l →
      (advance (listed yaz database sessionRealm))^[n + 1] l.proxyStep = 0 →
      n < attempts.length → (searchLoop yaz impl sr database l attempts).isSome := by
  induction n with
  | zero =>
    intro l attempts hl hn hlen
    cases attempts with
    | nil => cases hlen
    | cons a attempts =>
      refine searchLoop_cons fun l' hagain => ?_
      obtain ⟨-, -, -, hstep, -⟩ := following_again hl hagain
      exact absurd hn hstep
  | succ n ih =>
    intro l attempts hl hn hlen
    cases attempts with
    | nil => cases hlen
    | cons a attempts =>
      refine searchLoop_cons fun l' hagain => ?_
      obtain ⟨hl', -, -, -, hstep⟩ := following_again hl hagain
      refine ih hl' ?_ (Nat.lt_of_succ_lt_succ hlen)
      rw [hstep]
      exact hn

/-! ## What is tried -/

/-- The listed proxy that an attempt is made with. -/
def triedProxy (yaz : Yaz) (database : List Char) (l : Loop) : Option (List Char) :=
  let lists := listed yaz database l.frontend.sessionRealm
  match l.frontend.connectionReuse database with
  | some b => if b.proxy ∈ lists.flatten then some b.proxy else none
  | none => if IsExplain database then none else (chooseProxy lists l.proxyStep).1

/-- The listed proxies before the retry with the same proxy, and those after it. -/
def tries (yaz : Yaz) (impl : Impl) (sr : SearchRequest) (database : List Char) :
    Loop → List Attempt → List (List Char) × List (List Char)
  | _, [] => ([], [])
  | l, a :: attempts =>
    let proxy := (triedProxy yaz database l).toList
    match attempt yaz impl sr database l a with
    | .again l' =>
      let rest := tries yaz impl sr database l' attempts
      if l'.sameRetries = l.sameRetries then (proxy ++ rest.1, rest.2)
      else (proxy, rest.1 ++ rest.2)
    | _ => (proxy, [])

theorem triedProxy_none {l : Loop} (h : Following sessionRealm l) :
    triedProxy yaz database l = if IsExplain database then none
      else (chooseProxy (listed yaz database sessionRealm) l.proxyStep).1 := by
  rw [triedProxy, connectionReuse_none h.backend, h.realm]

theorem tries_eq {attempts : List Attempt} :
    ∀ {l : Loop} {n : Nat}, Following sessionRealm l →
      FirstArrival (advance (listed yaz database sessionRealm)) 0
        (advance (listed yaz database sessionRealm) l.proxyStep) n →
      ∃ len, len ≤ n + 1 ∧ tries yaz impl sr database l attempts =
        ((List.range len).filterMap fun i => (chooseProxy (listed yaz database sessionRealm)
          ((advance (listed yaz database sessionRealm))^[i] l.proxyStep)).1, []) := by
  induction attempts with
  | nil =>
    intro l n _ _
    exact ⟨0, Nat.zero_le _, rfl⟩
  | cons a attempts ih =>
    intro l n hl hn
    have hlast : ∃ len, len ≤ n + 1 ∧ ((triedProxy yaz database l).toList, []) =
        ((List.range len).filterMap fun i => (chooseProxy (listed yaz database sessionRealm)
          ((advance (listed yaz database sessionRealm))^[i] l.proxyStep)).1,
          ([] : List (List Char))) := by
      rw [triedProxy_none hl]
      by_cases hexplain : IsExplain database
      · exact ⟨0, Nat.zero_le _, by rw [if_pos hexplain]; rfl⟩
      · refine ⟨1, Nat.succ_le_succ (Nat.zero_le n), ?_⟩
        rw [if_neg hexplain, filterMap_range_succ]
        simp
    rw [tries]
    cases hattempt : attempt yaz impl sr database l a with
    | done out => exact hlast
    | aborted => exact hlast
    | again l' =>
      obtain ⟨hl', hsame, hexplain, hne, hstep⟩ := following_again hl hattempt
      cases n with
      | zero => exact absurd hn.arrived hne
      | succ n =>
        obtain ⟨len, hlen, heq⟩ := ih hl' (hstep ▸ hn.next)
        refine ⟨len + 1, Nat.succ_le_succ hlen, ?_⟩
        simp only [if_pos hsame, heq, triedProxy_none hl, if_neg hexplain]
        rw [filterMap_range_succ, hstep]
        rfl

/-! ## From the start -/

/-- The step comes to 0 from where a retry may begin: behind the first proxy, and, when the
connection is used again, behind its proxy. -/
def RetriesEnd (yaz : Yaz) (database : List Char) (f : Frontend) : Prop :=
  let lists := listed yaz database f.sessionRealm
  Known yaz database f.sessionRealm → ¬ IsExplain database →
    match f.connectionReuse database with
    | none => Arrives (advance lists) 0 (advance lists 0)
    | some b =>
      (b.retryOnFailure ≠ "0".toList → Arrives (advance lists) 0 (advance lists 0)) ∧
        (b.proxy ≠ [] → Arrives (advance lists) 0 (stepBehind lists b.proxy))

/-- The loop of a search begins with this. -/
def Loop.start (f : Frontend) : Loop := ⟨f, 0, 0, 0⟩

theorem stepLeft_lt (f : Frontend) :
    stepLeft yaz database f 0 < max 1 (lastLength (listed yaz database f.sessionRealm)) := by
  unfold stepLeft
  cases f.connectionReuse database with
  | none => exact advance_zero_lt _
  | some b => exact stepBehind_lt b.proxy

theorem following_of_again {f : Frontend} {b : Backend} {l' : Loop}
    (hagain : Again yaz database (.start f) b l') : Following f.sessionRealm l' := by
  cases hagain with
  | nextProxy hbackend hrealm _ _ => exact ⟨hbackend, hrealm, .inr (Nat.succ_ne_zero _)⟩
  | sameProxy hbackend hrealm _ _ _ => exact ⟨hbackend, hrealm, .inl Nat.one_ne_zero⟩

/-- What the condition says of a second attempt. -/
theorem second_attempt {f : Frontend} {b : Backend} {l' : Loop} (h : RetriesEnd yaz database f)
    (hused : Used yaz database f b) (hexplain : ¬ IsExplain database)
    (hagain : Again yaz database (.start f) b l') :
    (l'.sameRetries = 0 ∧ l'.proxyStep ≠ 0 ∧ l'.proxyStep = stepLeft yaz database f 0 ∧
      Arrives (advance (listed yaz database f.sessionRealm)) 0 l'.proxyStep) ∨
    l'.sameRetries ≠ 0 ∧ l'.proxyStep = 0 ∧
      Arrives (advance (listed yaz database f.sessionRealm)) 0
        (advance (listed yaz database f.sessionRealm) 0) := by
  have h := h hused.known hexplain
  cases hagain with
  | nextProxy _ _ hproxy hstep =>
    refine .inl ⟨rfl, hstep, rfl, ?_⟩
    show Arrives _ 0 (stepLeft yaz database f 0)
    unfold stepLeft
    cases hreuse : f.connectionReuse database with
    | none =>
      rw [hreuse] at h
      exact h
    | some b0 =>
      rw [hreuse] at h
      exact h.2 ((hused.reused b0 hreuse).1 ▸ hproxy)
  | sameProxy _ _ hretry _ _ =>
    refine .inr ⟨Nat.one_ne_zero, rfl, ?_⟩
    cases hreuse : f.connectionReuse database with
    | none =>
      rw [hreuse] at h
      exact h
    | some b0 =>
      rw [hreuse] at h
      exact h.1 ((hused.reused b0 hreuse).2 ▸ hretry)

theorem start_ends {f : Frontend} (h : RetriesEnd yaz database f) {attempts : List Attempt}
    (hlen : (listed yaz database f.sessionRealm).flatten.length + 2 ≤ attempts.length) :
    (searchLoop yaz impl sr database (.start f) attempts).isSome := by
  have hlast := lastLength_le (listed yaz database f.sessionRealm)
  cases attempts with
  | nil => cases hlen
  | cons a attempts =>
    rw [List.length_cons] at hlen
    refine searchLoop_cons fun l' hagain => ?_
    obtain ⟨b, hused, hagain⟩ := attempt_again hagain
    have hl' := following_of_again hagain
    by_cases hexplain : IsExplain database
    · cases attempts with
      | nil => exact absurd hlen (by simp)
      | cons a' attempts =>
        refine searchLoop_cons fun l'' hagain' => ?_
        exact absurd hexplain (following_again hl' hagain').2.2.1
    · obtain ⟨-, hne, hstep, harrives⟩ | ⟨-, hstep, harrives⟩ :=
        second_attempt h hused hexplain hagain
      · obtain ⟨n, hn, hfirst⟩ := exists_arrival harrives (hstep ▸ stepLeft_lt f)
        cases n with
        | zero => exact absurd hfirst.arrived hne
        | succ n => exact searchLoop_ends hl' hfirst.arrived (by omega)
      · obtain ⟨n, hn, hfirst⟩ := exists_arrival harrives (advance_zero_lt _)
        refine searchLoop_ends (n := n) hl' ?_ (by omega)
        rw [hstep]
        exact hfirst.arrived

theorem mem_of_triedProxy {l : Loop} {proxy : List Char} (h : proxy ∈ triedProxy yaz database l) :
    proxy ∈ (listed yaz database l.frontend.sessionRealm).flatten := by
  unfold triedProxy at h
  revert h
  cases l.frontend.connectionReuse database with
  | none =>
    intro h
    by_cases hexplain : IsExplain database
    · simp only [if_pos hexplain] at h
      cases h
    · simp only [if_neg hexplain] at h
      exact mem_of_chooseProxy h
  | some b =>
    intro h
    by_cases hmem : b.proxy ∈ (listed yaz database l.frontend.sessionRealm).flatten
    · simp only [if_pos hmem] at h
      cases h
      exact hmem
    · simp only [if_neg hmem] at h
      cases h

theorem triedProxy_subperm (l : Loop) :
    (triedProxy yaz database l).toList.Subperm
      (listed yaz database l.frontend.sessionRealm).flatten := by
  cases h : triedProxy yaz database l with
  | none => exact List.nil_subperm
  | some proxy => exact List.singleton_subperm_iff.mpr (mem_of_triedProxy h)

theorem tries_explain {l : Loop} {attempts : List Attempt} (hl : Following sessionRealm l)
    (h : IsExplain database) : tries yaz impl sr database l attempts = ([], []) := by
  cases attempts with
  | nil => rfl
  | cons a attempts =>
    rw [tries]
    cases hattempt : attempt yaz impl sr database l a with
    | again l' => exact absurd h (following_again hl hattempt).2.2.1
    | done out => simp [triedProxy_none hl, h]
    | aborted => simp [triedProxy_none hl, h]

theorem triedProxy_start (f : Frontend) :
    triedProxy yaz database (.start f) =
      match f.connectionReuse database with
      | some b =>
        if b.proxy ∈ (listed yaz database f.sessionRealm).flatten then some b.proxy else none
      | none =>
        if IsExplain database then none
        else (chooseProxy (listed yaz database f.sessionRealm) 0).1 :=
  rfl

/-- The proxy of the first attempt, and those of the attempts that follow it. -/
theorem first_subperm {f : Frontend} {n len : Nat} (hexplain : ¬ IsExplain database)
    (hfirst : FirstArrival (advance (listed yaz database f.sessionRealm)) 0
      (stepLeft yaz database f 0) n) (hlen : len ≤ n) :
    ((triedProxy yaz database (.start f)).toList ++ (List.range len).filterMap fun i =>
      (chooseProxy (listed yaz database f.sessionRealm)
        ((advance (listed yaz database f.sessionRealm))^[i] (stepLeft yaz database f 0))).1).Subperm
      (listed yaz database f.sessionRealm).flatten := by
  cases hreuse : f.connectionReuse database with
  | none =>
    have hleft : stepLeft yaz database f 0 = advance (listed yaz database f.sessionRealm) 0 := by
      rw [stepLeft, hreuse]
    have htried : triedProxy yaz database (.start f) =
        (chooseProxy (listed yaz database f.sessionRealm) 0).1 := by
      rw [triedProxy_start, hreuse]
      exact if_neg hexplain
    rw [hleft] at hfirst
    have hsub := chosen_subperm hfirst (Nat.succ_le_succ hlen)
    rw [filterMap_range_succ] at hsub
    rw [htried, hleft]
    exact hsub
  | some b =>
    have hleft : stepLeft yaz database f 0 =
        stepBehind (listed yaz database f.sessionRealm) b.proxy := by
      rw [stepLeft, hreuse]
      rfl
    rw [hleft] at hfirst
    rw [hleft]
    by_cases hmem : b.proxy ∈ (listed yaz database f.sessionRealm).flatten
    · have htried : triedProxy yaz database (.start f) = some b.proxy := by
        rw [triedProxy_start, hreuse]
        exact if_pos hmem
      obtain ⟨x, hx, hproxy, hfrom⟩ := stepBehind_place hmem
      have hsub := chosen_subperm_from (p := some x)
        (fun y hy => by cases hy; exact ⟨hx, hfrom⟩) hfirst hlen
      rw [htried, ← hproxy]
      rw [← hproxy] at hsub
      exact hsub
    · have htried : triedProxy yaz database (.start f) = none := by
        rw [triedProxy_start, hreuse]
        exact if_neg hmem
      rw [htried]
      exact chosen_subperm_from (p := none) (fun y hy => by cases hy) hfirst hlen

theorem tries_once {f : Frontend} (h : RetriesEnd yaz database f) (attempts : List Attempt) :
    (tries yaz impl sr database (.start f) attempts).1.Subperm
        (listed yaz database f.sessionRealm).flatten ∧
      (tries yaz impl sr database (.start f) attempts).2.Subperm
        (listed yaz database f.sessionRealm).flatten := by
  have hfirst : (triedProxy yaz database (.start f)).toList.Subperm
      (listed yaz database f.sessionRealm).flatten := triedProxy_subperm (.start f)
  cases attempts with
  | nil => exact ⟨List.nil_subperm, List.nil_subperm⟩
  | cons a attempts =>
    rw [tries]
    cases hattempt : attempt yaz impl sr database (.start f) a with
    | done out => exact ⟨hfirst, List.nil_subperm⟩
    | aborted => exact ⟨hfirst, List.nil_subperm⟩
    | again l' =>
      obtain ⟨b, hused, hagain⟩ := attempt_again hattempt
      have hl' := following_of_again hagain
      simp only
      by_cases hexplain : IsExplain database
      · rw [tries_explain hl' hexplain]
        split
        · exact ⟨by simpa using hfirst, List.nil_subperm⟩
        · exact ⟨hfirst, List.nil_subperm⟩
      · obtain ⟨hsame, hne, hstep, harrives⟩ | ⟨hsame, hstep, harrives⟩ :=
          second_attempt h hused hexplain hagain
        · have hsame : l'.sameRetries = (Loop.start f).sameRetries := hsame
          obtain ⟨n, -, harrival⟩ := exists_arrival harrives (hstep ▸ stepLeft_lt f)
          cases n with
          | zero => exact absurd harrival.arrived hne
          | succ n =>
            obtain ⟨len, hlen, heq⟩ : ∃ len, len ≤ n + 1 ∧
                tries yaz impl sr database l' attempts = _ := tries_eq hl' harrival.next
            rw [if_pos hsame, heq, hstep]
            exact ⟨first_subperm hexplain (hstep ▸ harrival) hlen, List.nil_subperm⟩
        · have hsame : l'.sameRetries ≠ (Loop.start f).sameRetries := hsame
          obtain ⟨n, -, harrival⟩ := exists_arrival harrives (advance_zero_lt _)
          obtain ⟨len, hlen, heq⟩ : ∃ len, len ≤ n + 1 ∧
              tries yaz impl sr database l' attempts = _ :=
            tries_eq hl' (by rw [hstep]; exact harrival)
          rw [if_neg hsame, heq, hstep, List.append_nil]
          exact ⟨hfirst, chosen_subperm harrival hlen⟩

/-! ## Attempts that go on -/

/-- A target that is known and has a proxy. -/
def profile : Searchable where
  authentication := []
  cfAuth := []
  cfProxy := "localhost:8080".toList
  cfSubDB := []
  cfParam := ∅
  contentConnector := []
  noCproxy := []
  retryOnFailure := "1".toList
  sru := []
  rpn2cqlFname := []
  cclBibset := ∅

def profileOnly (database : List Char) : Impl where
  torusSearchableUrl := []
  torusContentUrl := []
  defaultRealm := []
  sMap := (∅ : Table (List Char) Searchable).insert (torusDb database) profile
  fieldmap := ∅
  explainXsp := false

/-- No connection is made, and the proxy answers or not. -/
def refused (checkProxy : Bool) : Attempt where
  torus := .failure []
  unusable := none
  explain := .error []
  connect := some ⟨.temporarySystemError, "ZOOM 10000".toList⟩
  contentSession := none
  search := .error ⟨.temporarySystemError, []⟩
  present := ⟨none, []⟩
  checkProxy := checkProxy

theorem find_profile (url : List Char) (torus : TorusAnswer) :
    findSearchable (profileOnly database) url database torus = .ok profile := by
  have hlookup : (profileOnly database).sMap.lookup (torusDb database) = some profile :=
    AList.lookup_insert _
  rw [findSearchable.eq_def, hlookup]

theorem profile_proxy (args : Args) : (Backend.new profile database args).proxy ≠ [] := by
  show (if args.proxy = [] then profile.cfProxy else args.proxy) ≠ []
  split
  · decide
  · assumption

theorem retry_next {l : Loop} {b : Backend} (error : Diag) (hproxy : b.proxy ≠ [])
    (hstep : l.proxyStep ≠ 0) :
    retry l (some b) error false =
      .again ⟨{ l.frontend with backend := none }, l.proxyStep, l.sameRetries,
        l.proxyRetries + 1⟩ := by
  simp [retry, hproxy, hstep]

theorem retry_same {f : Frontend} {b : Backend} (proxyStep : Nat) (error : Diag)
    (hretry : b.retryOnFailure ≠ "0".toList) :
    retry ⟨f, proxyStep, 0, 0⟩ (some b) error true =
      .again ⟨{ f with backend := none }, 0, 1, 0⟩ := by
  have hcheck : ¬ (b.proxy ≠ [] ∧ !true) := by
    rintro ⟨-, h⟩
    cases h
  show (if b.proxy ≠ [] ∧ !true then _ else if _ then _ else _) = _
  rw [if_neg hcheck]
  exact if_pos ⟨hretry, rfl, rfl⟩

theorem refused_again {l : Loop} (hknown : Known yaz database l.frontend.sessionRealm)
    (hexplain : ¬ IsExplain database) (hreuse : l.frontend.connectionReuse database = none)
    (hstep : advance (listed yaz database l.frontend.sessionRealm) l.proxyStep ≠ 0) :
    attempt yaz (profileOnly database) sr database l (refused false) =
      .again ⟨{ l.frontend with backend := none },
        advance (listed yaz database l.frontend.sessionRealm) l.proxyStep, l.sameRetries,
        l.proxyRetries + 1⟩ := by
  obtain ⟨args, hargs, hleft, -⟩ :=
    databaseArgs_known (profileOnly database) l.frontend l.proxyStep hknown
  rw [stepLeft, hreuse] at hleft
  have hobtained : getBackendFromDatabases yaz (profileOnly database) l.frontend database sr.query
      (refused false) l.proxyStep = .failed { l.frontend with backend := none }
        (some (.new profile database args)) ⟨.temporarySystemError, "ZOOM 10000".toList⟩
        (advance (listed yaz database l.frontend.sessionRealm) l.proxyStep) := by
    have hexplain : ¬ torusDb database = "IR-Explain---1".toList := hexplain
    unfold getBackendFromDatabases
    rw [hargs]
    simp only [hreuse, hleft, if_neg hexplain, find_profile]
    rfl
  rw [attempt, hobtained]
  show orRetry (retry _ _ _ false) = _
  rw [retry_next _ (profile_proxy args) hstep]
  rfl

/-- With a connection that is used again. -/
theorem refused_reuse {f : Frontend} {b : Backend} (checkProxy : Bool)
    (hknown : Known yaz database f.sessionRealm) (hreuse : f.connectionReuse database = some b) :
    attempt yaz (profileOnly database) sr database (.start f) (refused checkProxy) =
      orRetry (retry ⟨f, stepBehind (listed yaz database f.sessionRealm) b.proxy, 0, 0⟩ (some b)
        ⟨.temporarySystemError, "ZOOM 10000".toList⟩ checkProxy) := by
  obtain ⟨args, hargs, hleft, -⟩ := databaseArgs_known (profileOnly database) f 0 hknown
  rw [stepLeft, hreuse] at hleft
  have hobtained : getBackendFromDatabases yaz (profileOnly database) f database sr.query
      (refused checkProxy) 0 = .failed f (some b) ⟨.temporarySystemError, "ZOOM 10000".toList⟩
        (stepBehind (listed yaz database f.sessionRealm) b.proxy) := by
    unfold getBackendFromDatabases
    rw [hargs]
    simp only [hreuse, hleft]
    rfl
  have hproceed : attempt yaz (profileOnly database) sr database (.start f) (refused checkProxy) =
      proceed yaz (profileOnly database) sr (.start f) (refused checkProxy)
        (getBackendFromDatabases yaz (profileOnly database) f database sr.query
          (refused checkProxy) 0) := rfl
  rw [hproceed, hobtained]
  rfl

theorem refused_goes_on {n : Nat} :
    ∀ {l : Loop}, Known yaz database l.frontend.sessionRealm → ¬ IsExplain database →
      l.frontend.connectionReuse database = none →
      ¬ Arrives (advance (listed yaz database l.frontend.sessionRealm)) 0
        (advance (listed yaz database l.frontend.sessionRealm) l.proxyStep) →
      searchLoop yaz (profileOnly database) sr database l (List.replicate n (refused false)) =
        none := by
  induction n with
  | zero => exact fun _ _ _ _ => rfl
  | succ n ih =>
    intro l hknown hexplain hreuse hnever
    have hstep : advance (listed yaz database l.frontend.sessionRealm) l.proxyStep ≠ 0 :=
      fun h => hnever ⟨0, h⟩
    rw [List.replicate_succ, searchLoop, refused_again hknown hexplain hreuse hstep]
    exact ih hknown hexplain rfl fun h => hnever h.of_next

theorem start_goes_on (sr : SearchRequest) {f : Frontend} (h : ¬ RetriesEnd yaz database f)
    (n : Nat) :
    ∃ attempts : List Attempt, attempts.length = n ∧
      searchLoop yaz (profileOnly database) sr database (.start f) attempts = none := by
  cases n with
  | zero => exact ⟨[], rfl, rfl⟩
  | succ n =>
    simp only [RetriesEnd, not_forall] at h
    obtain ⟨hknown, hexplain, h⟩ := h
    have hlen : ∀ a : Attempt, (a :: List.replicate n (refused false)).length = n + 1 := by
      simp
    cases hreuse : f.connectionReuse database with
    | none =>
      rw [hreuse] at h
      exact ⟨_, hlen (refused false), refused_goes_on (n := n + 1) hknown hexplain hreuse h⟩
    | some b =>
      rw [hreuse, not_and_or, Classical.not_imp, Classical.not_imp] at h
      rcases h with ⟨hretry, hnever⟩ | ⟨hproxy, hnever⟩
      · refine ⟨_, hlen (refused true), ?_⟩
        rw [searchLoop, refused_reuse true hknown hreuse, retry_same _ _ hretry]
        exact refused_goes_on hknown hexplain rfl hnever
      · have hstep : stepBehind (listed yaz database f.sessionRealm) b.proxy ≠ 0 :=
          fun h => hnever ⟨0, h⟩
        refine ⟨_, hlen (refused false), ?_⟩
        rw [searchLoop, refused_reuse false hknown hreuse, retry_next _ hproxy hstep]
        exact refused_goes_on hknown hexplain rfl fun h => hnever h.of_next

end Attempts

/-! ## Bounds -/

theorem retriesEnd_of_one {yaz : Yaz} {database : List Char} {f : Frontend}
    (h : (listed yaz database f.sessionRealm).length ≤ 1) : RetriesEnd yaz database f := by
  intro _ _
  have harrives : ∀ s, (listed yaz database f.sessionRealm = [] → s = 0) →
      Arrives (advance (listed yaz database f.sessionRealm)) 0 s := by
    intro s hs
    match hlists : listed yaz database f.sessionRealm with
    | [] => exact ⟨0, hs hlists⟩
    | [dstr] => exact arrives_advance dstr s
    | _ :: _ :: _ =>
      rw [hlists] at h
      exact absurd h (by simp)
  have hfirst : Arrives (advance (listed yaz database f.sessionRealm)) 0
      (advance (listed yaz database f.sessionRealm) 0) := by
    refine harrives _ fun hnil => ?_
    rw [hnil]
    rfl
  cases f.connectionReuse database with
  | none => exact hfirst
  | some b =>
    refine ⟨fun _ => hfirst, fun _ => harrives _ fun hnil => ?_⟩
    rw [hnil]
    rfl

def SearchRequest.on (sr : SearchRequest) (database : List Char) : SearchRequest :=
  { sr with databaseNames := [database] }

/-- The attempts at a search have a bound, for all configurations and whatever happens, exactly
when the step through the lists of proxies comes to 0. Then there are at most two more than there
are listed proxies, and each of these is tried once before the retry with the same proxy and once
after it. With one `proxy` argument, or none, it is always so. -/
theorem search_ends_iff (yaz : Yaz) (f : Frontend) (sr : SearchRequest) (database : List Char) :
    ((∃ n, ∀ impl attempts, attempts.length = n →
        (handleSearch yaz impl f (sr.on database) attempts).isSome) ↔
      RetriesEnd yaz database f) ∧
    (RetriesEnd yaz database f → ∀ impl attempts,
      ((listed yaz database f.sessionRealm).flatten.length + 2 ≤ attempts.length →
        (handleSearch yaz impl f (sr.on database) attempts).isSome) ∧
      (tries yaz impl (sr.on database) database (.start f) attempts).1.Subperm
        (listed yaz database f.sessionRealm).flatten ∧
      (tries yaz impl (sr.on database) database (.start f) attempts).2.Subperm
        (listed yaz database f.sessionRealm).flatten) ∧
    ((listed yaz database f.sessionRealm).length ≤ 1 → RetriesEnd yaz database f) := by
  refine ⟨⟨?_, ?_⟩, ?_, retriesEnd_of_one⟩
  · rintro ⟨n, hn⟩
    by_contra h
    obtain ⟨attempts, hlen, hnone⟩ := start_goes_on (sr.on database) h n
    have hends : (searchLoop yaz (profileOnly database) (sr.on database) database (.start f)
        attempts).isSome := hn (profileOnly database) attempts hlen
    rw [hnone] at hends
    cases hends
  · intro h
    exact ⟨_, fun impl attempts hlen => start_ends h (Nat.le_of_eq hlen.symm)⟩
  · intro h impl attempts
    exact ⟨fun hlen => start_ends h hlen, tries_once h attempts⟩

/-! ### Two `proxy` arguments -/

/-- `name=value`, with `&` in between. -/
def plainUri (args : List Char) : List (List Char × List Char) :=
  (args.splitOn '&').map fun arg => (arg.takeWhile (· ≠ '='), (arg.dropWhile (· ≠ '=')).tail)

def plain : Yaz where
  uriToArray := plainUri
  strsplit value := (value.splitOn ',').filter (· ≠ [])
  cqlParserString _ := none
  cqlToCcl _ := none
  cqlSortbyToSortkeys _ := none
  cclFindStr _ _ := .error .unknownQual
  cclErrMsg _ := []
  rpn2cql _ _ pqf := .ok pqf

def twoLists : List Char := "db,proxy=a&proxy=b,c".toList

def newSession : Frontend := ⟨[], none, 0⟩

def titleSearch : SearchRequest := ⟨[twoLists], .type1 "@attr 1=4 x".toList, 0, 1, 0⟩

/-- The first list takes the step back to 0, and the second on to 1. -/
theorem not_retriesEnd_twoLists : ¬ RetriesEnd plain twoLists newSession := by
  have hone : advance (listed plain twoLists []) 1 = 1 := by decide +kernel
  have hzero : advance (listed plain twoLists []) 0 = 1 := by decide +kernel
  have hknown : Known plain twoLists [] := by
    show ∀ q ∈ inputArgs plain twoLists, argName [] q.1 ≠ none
    decide +kernel
  intro h
  have harrives : Arrives (advance (listed plain twoLists [])) 0
      (advance (listed plain twoLists []) 0) := h hknown (by decide +kernel)
  obtain ⟨n, hn⟩ := harrives
  rw [hzero, Function.iterate_fixed hone] at hn
  cases hn

/-- There is always another attempt with the proxy `b`, which does not answer. -/
theorem search_goes_on : ¬ ∃ n, ∀ attempts : List Attempt, attempts.length = n →
    (handleSearch plain (profileOnly twoLists) newSession titleSearch attempts).isSome := by
  rintro ⟨n, hn⟩
  obtain ⟨attempts, hlen, hnone⟩ := start_goes_on titleSearch not_retriesEnd_twoLists n
  have hends : (searchLoop plain (profileOnly twoLists) titleSearch twoLists (.start newSession)
      attempts).isSome := hn attempts hlen
  rw [hnone] at hends
  cases hends

end Zoom
end Metaproxy
