import Metaproxy.VirtualDB.Frontend

/-!
# VirtualDB.Sets

Do result sets alias? Two entries of `m_sets` must never stand for the same set of the same
backend, and a present on set `N` must reach what the last successful search for `N` left there.

A backend without named result sets has the one set `default`, so a search must not reuse the
backend of another entry. When a set is replaced, `search` takes the first backend for the
databases, also one that another entry refers to. `NoSteal` is the condition that it does not;
`sets_current` says that under it the result sets never alias in any run, and that a step that
does not meet it leaves an entry whose set was overwritten.
-/

namespace Metaproxy
namespace VirtualDB

open Lib

/-! ## What the log says of a result set -/

/-- A search for the client's set `name` that succeeded. -/
def Sent.succeeded (name : String) : Sent → Bool
  | .search set _ _ _ _ ok => set = name && ok
  | _ => false

/-- A search sent to the set `setname` of a backend session. -/
def Sent.writes (session : Nat) (setname : String) : Sent → Bool
  | .search _ session' _ setname' _ _ => session' = session && setname' = setname
  | _ => false

/-- The last successful search for `name` is the last search of all that was sent to the set
`setname` on `session`. -/
def Current (log : List Sent) (name : String) (session : Nat) (setname : String) : Prop :=
  ∃ e, log.find? (Sent.succeeded name) = some e ∧ log.find? (Sent.writes session setname) = some e

/-- Sent packages that are not searches change nothing. -/
theorem Current.cons {log : List Sent} {name setname : String} {session : Nat} {e : Sent}
    (he : e.succeeded name = false) (hw : e.writes session setname = false) :
    Current (e :: log) name session setname ↔ Current log name session setname := by
  simp [Current, he, hw]

/-- One set cannot be current for two names. -/
theorem Current.name_inj {log : List Sent} {name name' setname : String} {session : Nat}
    (h : Current log name session setname) (h' : Current log name' session setname) :
    name = name' := by
  obtain ⟨e, hs, hw⟩ := h
  obtain ⟨e', hs', hw'⟩ := h'
  have hee : e = e' := by
    rw [hw] at hw'
    exact Option.some.inj hw'
  subst hee
  have h1 := List.find?_some hs
  have h2 := List.find?_some hs'
  cases e <;> simp_all [Sent.succeeded]

/-! ## The invariant -/

/-- Entries name backends of the list, under the set name that `search` chose; session ids are
not shared. -/
structure WellFormed (s : St) : Prop where
  ids : ∀ b ∈ s.backendList, b.session ≤ s.globalId
  distinct : (s.backendList.map (·.session)).Nodup
  entries : ∀ name set, s.sets.lookup name = some set →
    set.backend ∈ s.backendList ∧ set.setname = set.backend.setname name

/-- Every entry is current. -/
def AllCurrent (s : St) : Prop :=
  ∀ name set, s.sets.lookup name = some set → Current s.log name set.backend.session set.setname

/-- Every present of the log was sent to a set that was current then. -/
def PresentsCurrent : List Sent → Prop
  | [] => True
  | .present name session _ setname :: log => Current log name session setname ∧ PresentsCurrent log
  | _ :: log => PresentsCurrent log

/-- A search that replaces a set does not find, as the first backend for its databases, one
without named result sets that another entry refers to. -/
def NoSteal (s : St) : Label → Prop
  | .search req _ _ =>
    req.replaceIndicator = true → (s.sets.lookup req.resultSetName).isSome →
      ∀ b ∈ s.backendList.find? (fun b => Util.match_ b.frontendDatabases req.databaseNames),
        b.namedResultSets = false → ∀ name set, s.sets.lookup name = some set →
          set.backend.session = b.session → name = req.resultSetName
  | _ => True

theorem WellFormed.eq_of_session {s : St} (h : WellFormed s) {b b' : Backend}
    (hb : b ∈ s.backendList) (hb' : b' ∈ s.backendList) (hs : b.session = b'.session) : b = b' :=
  List.inj_on_of_nodup_map h.distinct hb hb' hs

/-! ## Packages that are no searches -/

/-- Neither a search nor a present. -/
def Sent.isOther : Sent → Bool
  | .search .. => false
  | .present .. => false
  | _ => true

theorem Sent.isOther_succeeded {e : Sent} (h : e.isOther = true) (name : String) :
    e.succeeded name = false := by
  cases e <;> simp_all [Sent.isOther, Sent.succeeded]

theorem Sent.isOther_writes {e : Sent} (h : e.isOther = true) (session : Nat) (setname : String) :
    e.writes session setname = false := by
  cases e <;> simp_all [Sent.isOther, Sent.writes]

theorem Current.append {log new : List Sent} {name setname : String} {session : Nat}
    (h : ∀ e ∈ new, e.isOther = true) :
    Current (new ++ log) name session setname ↔ Current log name session setname := by
  induction new with
  | nil => rfl
  | cons e new ih =>
    have he := h e (by simp)
    rw [List.cons_append, Current.cons (e.isOther_succeeded he name) (e.isOther_writes he _ _)]
    exact ih fun e h' => h e (by simp [h'])

theorem PresentsCurrent.append {log new : List Sent} (h : ∀ e ∈ new, e.isOther = true)
    (hp : PresentsCurrent log) : PresentsCurrent (new ++ log) := by
  induction new with
  | nil => exact hp
  | cons e new ih =>
    have he := h e (by simp)
    have hrest := ih fun e h' => h e (by simp [h'])
    cases e with
    | search => cases he
    | present => cases he
    | _ => exact hrest

/-- What a request may do besides its search or present: send other packages, take session ids,
and append a backend with an id of its own. -/
structure Grows (s s' : St) : Prop where
  log : ∃ new, s'.log = new ++ s.log ∧ ∀ e ∈ new, e.isOther = true
  sets : s'.sets = s.sets
  globalId : s.globalId ≤ s'.globalId
  backends : s'.backendList = s.backendList ∨
    ∃ b, s'.backendList = s.backendList ++ [b] ∧ s.globalId < b.session ∧ b.session ≤ s'.globalId

theorem Grows.wellFormed {s s' : St} (h : Grows s s') (hs : WellFormed s) : WellFormed s' := by
  have hmem : ∀ b ∈ s.backendList, b ∈ s'.backendList := by
    intro b hb
    obtain h1 | ⟨b', h1, -, -⟩ := h.backends <;> rw [h1]
    · exact hb
    · exact List.mem_append_left _ hb
  refine ⟨?_, ?_, ?_⟩
  · intro b hb
    have hle := h.globalId
    obtain h1 | ⟨b', h1, -, h3⟩ := h.backends <;> rw [h1] at hb
    · exact Nat.le_trans (hs.ids b hb) hle
    · obtain hb | hb := List.mem_append.mp hb
      · exact Nat.le_trans (hs.ids b hb) hle
      · rw [List.mem_singleton.mp hb]; exact h3
  · obtain h1 | ⟨b', h1, h2, -⟩ := h.backends <;> rw [h1]
    · exact hs.distinct
    · rw [List.map_append, List.nodup_append]
      refine ⟨hs.distinct, by simp, ?_⟩
      intro x hx y hy hxy
      obtain ⟨b, hb, rfl⟩ := List.mem_map.mp hx
      simp only [List.map_cons, List.map_nil, List.mem_singleton] at hy
      have := hs.ids b hb
      omega
  · intro name set hl
    rw [h.sets] at hl
    have he := hs.entries name set hl
    exact ⟨hmem _ he.1, he.2⟩

theorem Grows.allCurrent {s s' : St} (h : Grows s s') (hs : AllCurrent s) : AllCurrent s' := by
  obtain ⟨new, hnew, hother⟩ := h.log
  intro name set hl
  rw [h.sets] at hl
  rw [hnew, Current.append hother]
  exact hs name set hl

theorem Grows.presentsCurrent {s s' : St} (h : Grows s s') (hs : PresentsCurrent s.log) :
    PresentsCurrent s'.log := by
  obtain ⟨new, hnew, hother⟩ := h.log
  rw [hnew]
  exact hs.append hother

/-! ## `init_backend` -/

theorem createBackend_session {rep : Rep} {session : Nat} {databases : List String} {b : Backend}
    (h : createBackendFromDatabases rep session databases = .ok b) : b.session = session := by
  simp only [createBackendFromDatabases] at h
  split at h
  · cases h
  · cases h; rfl

/-- A backend that `init_backend` returns is the new last one of the list. -/
theorem initBackend_grows (rep : Rep) (s : St) (databases : List String) (ia : InitAnswer) :
    Grows s (initBackend rep s databases ia).1 ∧
      ∀ b, (initBackend rep s databases ia).2 = .ok b →
        b ∈ (initBackend rep s databases ia).1.backendList ∧ s.globalId < b.session := by
  simp only [initBackend]
  cases hc : createBackendFromDatabases rep (s.globalId + 1) databases with
  | error e => exact ⟨⟨⟨[], rfl, by simp⟩, rfl, by simp, .inl rfl⟩, nofun⟩
  | ok b =>
    have hb := createBackend_session hc
    simp only
    split
    · refine ⟨⟨⟨[.init b.session b.route b.targets], rfl, by simp [Sent.isOther]⟩, rfl, by simp,
        .inr ⟨_, rfl, ?_, ?_⟩⟩, ?_⟩
      · show s.globalId < b.session
        omega
      · show b.session ≤ s.globalId + 1
        omega
      · intro b' hb'
        cases hb'
        refine ⟨by simp, ?_⟩
        show s.globalId < b.session
        omega
    · refine ⟨?_, nofun⟩
      cases ia.closed with
      | true =>
        exact ⟨⟨[.init b.session b.route b.targets], rfl, by simp [Sent.isOther]⟩, rfl, by simp,
          .inl rfl⟩
      | false =>
        exact ⟨⟨[.close b.session b.route, .init b.session b.route b.targets], rfl,
          by simp [Sent.isOther]⟩, rfl, by simp, .inl rfl⟩

/-! ## `search` with its backend -/

section SearchOn

variable {rep : Rep} {s : St} {b : Backend} {req : SearchRequest} {sa : SearchAnswer}

theorem searchOn_sets :
    (searchOn rep s b req sa).1.sets =
      if sa.ok then (s.sets.erase req.resultSetName).insert req.resultSetName
        ⟨b, b.setname req.resultSetName⟩
      else s.sets.erase req.resultSetName := by
  simp only [searchOn]
  cases hc : sa.closed with
  | true => simp [SearchAnswer.ok, hc]
  | false => cases ho : sa.ok <;> simp

theorem searchOn_log :
    (searchOn rep s b req sa).1.log = .search req.resultSetName b.session b.route
      (b.setname req.resultSetName) (b.databaseNames rep req.databaseNames) sa.ok :: s.log := by
  simp only [searchOn]
  split
  · rfl
  · split <;> rfl

theorem searchOn_backends :
    (searchOn rep s b req sa).1.backendList = s.backendList ∧
      (searchOn rep s b req sa).1.globalId = s.globalId := by
  simp only [searchOn]
  split
  · exact ⟨rfl, rfl⟩
  · split <;> exact ⟨rfl, rfl⟩

theorem searchOn_lookup_ne {name : String} (h : name ≠ req.resultSetName) :
    (searchOn rep s b req sa).1.sets.lookup name = s.sets.lookup name := by
  rw [searchOn_sets]
  split
  · rw [AList.lookup_insert_ne h, AList.lookup_erase_ne h]
  · rw [AList.lookup_erase_ne h]

theorem searchOn_lookup_self :
    (searchOn rep s b req sa).1.sets.lookup req.resultSetName =
      if sa.ok then some ⟨b, b.setname req.resultSetName⟩ else none := by
  rw [searchOn_sets]
  split <;> simp

theorem searchOn_wellFormed (hs : WellFormed s) (hb : b ∈ s.backendList) :
    WellFormed (searchOn rep s b req sa).1 := by
  have hsame : (searchOn rep s b req sa).1.backendList = s.backendList ∧
      (searchOn rep s b req sa).1.globalId = s.globalId :=
    searchOn_backends
  obtain ⟨hbl, hid⟩ := hsame
  refine ⟨by rw [hbl, hid]; exact hs.ids, by rw [hbl]; exact hs.distinct, ?_⟩
  intro name set hl
  rw [hbl]
  by_cases hname : name = req.resultSetName
  · subst hname
    rw [searchOn_lookup_self] at hl
    split at hl
    · cases hl; exact ⟨hb, rfl⟩
    · cases hl
  · rw [searchOn_lookup_ne hname] at hl
    exact hs.entries name set hl

/-- After the search every entry is current exactly when no other entry shares its set. -/
theorem searchOn_allCurrent (hs : AllCurrent s) :
    AllCurrent (searchOn rep s b req sa).1 ↔
      ∀ name set, s.sets.lookup name = some set → set.backend.session = b.session →
        set.setname = b.setname req.resultSetName → name = req.resultSetName := by
  constructor
  · intro h name set hl hses hset
    by_contra hne
    -- the other entry would have to be current for the search just sent
    obtain ⟨e, he, hw⟩ := h name set (by rw [searchOn_lookup_ne hne]; exact hl)
    rw [searchOn_log] at he hw
    rw [List.find?_cons_of_pos (by simp [Sent.writes, hses, hset])] at hw
    have hsucc := List.find?_some he
    cases hw
    simp only [Sent.succeeded, Bool.and_eq_true, decide_eq_true_eq] at hsucc
    exact hne hsucc.1.symm
  · intro h name set hl
    by_cases hname : name = req.resultSetName
    · subst hname
      rw [searchOn_lookup_self] at hl
      split at hl
      · rename_i hok
        cases hl
        rw [searchOn_log]
        exact ⟨_, List.find?_cons_of_pos (by simp [Sent.succeeded, hok]),
          List.find?_cons_of_pos (by simp [Sent.writes])⟩
      · cases hl
    · rw [searchOn_lookup_ne hname] at hl
      rw [searchOn_log, Current.cons]
      · exact hs name set hl
      · simp [Sent.succeeded, Ne.symm hname]
      · simp only [Sent.writes, Bool.and_eq_false_iff, decide_eq_false_iff_not]
        by_contra hcon
        push Not at hcon
        exact hname (h name set hl hcon.1.symm hcon.2.symm)

theorem searchOn_presents (hs : PresentsCurrent s.log) :
    PresentsCurrent (searchOn rep s b req sa).1.log := by
  rw [searchOn_log]
  exact hs

end SearchOn

/-! ## Steps -/

theorem Grows.of_log {s : St} (new : List Sent) (isClosed : Bool) (h : ∀ e ∈ new, e.isOther = true) :
    Grows s { s with log := new ++ s.log, isClosed } :=
  ⟨⟨new, rfl, h⟩, rfl, Nat.le_refl _, .inl rfl⟩

/-- A search that finds no backend takes none from another entry. -/
theorem noSteal_of_pick_none {s : St} {req : SearchRequest} {ia : InitAnswer} {sa : SearchAnswer}
    (h : pickBackend s req.databaseNames (s.sets.lookup req.resultSetName).isSome = none) :
    NoSteal s (.search req ia sa) := by
  intro _ hover b hb
  rw [hover] at h
  simp only [pickBackend, Bool.or_true, Bool.and_true] at h
  rw [h] at hb
  cases hb

/-- The shape of every step: some growth, then nothing more, a search on a backend of the list, or
a present to the set of an entry. -/
theorem process_cases (rep : Rep) (s : St) (a : Label) :
    (Grows s (process rep s a).1 ∧ NoSteal s a) ∨
    (∃ req ia sa b s1, a = .search req ia sa ∧ Grows s s1 ∧ b ∈ s1.backendList ∧
      (process rep s a).1 = (searchOn rep s1 b req sa).1 ∧
      ((s1 = s ∧ pickBackend s req.databaseNames (s.sets.lookup req.resultSetName).isSome = some b ∧
          ((s.sets.lookup req.resultSetName).isSome → req.replaceIndicator = true)) ∨
        s.globalId < b.session ∧ NoSteal s a)) ∨
    (∃ name closed set, a = .present name closed ∧ s.sets.lookup name = some set ∧
      (process rep s a).1 = { s with
        log := .present name set.backend.session set.backend.route set.setname :: s.log
        isClosed := closed }) := by
  have hself : Grows s s := ⟨⟨[], rfl, by simp⟩, rfl, Nat.le_refl _, .inl rfl⟩
  cases a with
  | init => exact .inl ⟨Grows.of_log [] true (by simp), trivial⟩
  | search req ia sa =>
    simp only [process, search]
    split
    · rename_i hrep
      simp only [Bool.and_eq_true, Bool.not_eq_true'] at hrep
      refine .inl ⟨hself, fun hr => ?_⟩
      rw [hrep.2] at hr
      cases hr
    · rename_i hrep
      have hreplace : (s.sets.lookup req.resultSetName).isSome → req.replaceIndicator = true := by
        intro h
        rw [h] at hrep
        simpa using hrep
      split
      · rename_i b hb
        exact .inr (.inl ⟨req, ia, sa, b, s, rfl, hself, List.mem_of_find?_eq_some hb, rfl,
          .inl ⟨rfl, hb, hreplace⟩⟩)
      · rename_i hnone
        obtain ⟨hg, hok⟩ := initBackend_grows rep s req.databaseNames ia
        split
        · rename_i s1 diag addinfo heq
          rw [heq] at hg
          exact .inl ⟨hg, noSteal_of_pick_none hnone⟩
        · rename_i s1 b heq
          rw [heq] at hg hok
          obtain ⟨hb, hfresh⟩ := hok b rfl
          exact .inr (.inl ⟨req, ia, sa, b, s1, rfl, hg, hb, rfl,
            .inr ⟨hfresh, noSteal_of_pick_none hnone⟩⟩)
  | present name closed =>
    simp only [process, present]
    split
    · exact .inl ⟨hself, trivial⟩
    · rename_i set hset
      exact .inr (.inr ⟨name, closed, set, rfl, hset, rfl⟩)
  | scan databases ia closed =>
    refine .inl ⟨?_, trivial⟩
    simp only [process, scan]
    split
    · exact Grows.of_log [_] closed (by simp [Sent.isOther])
    · obtain ⟨hg, -⟩ := initBackend_grows rep s databases ia
      split
      · rename_i s1 diag addinfo heq
        rw [heq] at hg
        exact hg
      · rename_i s1 b heq
        rw [heq] at hg
        obtain ⟨new, hnew, hother⟩ := hg.log
        refine ⟨⟨.scan b.session b.route (b.databaseNames rep databases) :: new, ?_, ?_⟩,
          hg.sets, hg.globalId, hg.backends⟩
        · show _ :: s1.log = _
          rw [hnew]; rfl
        · simpa [Sent.isOther] using hother
  | close =>
    refine .inl ⟨?_, trivial⟩
    have hrelay : ∀ e ∈ (s.backendList.map fun b => Sent.relay b.session b.route).reverse,
        e.isOther = true := by
      simp [Sent.isOther]
    simp only [process, relayApdu]
    cases s.backendList.length with
    | zero => exact Grows.of_log _ true hrelay
    | succ n => exact Grows.of_log _ s.isClosed hrelay
  | unsupported => exact .inl ⟨Grows.of_log [] true (by simp), trivial⟩
  | otherSession =>
    exact .inl ⟨⟨⟨[], rfl, by simp⟩, rfl, Nat.le_succ _, .inl rfl⟩, trivial⟩

structure Inv (s : St) : Prop where
  wellFormed : WellFormed s
  allCurrent : AllCurrent s
  presents : PresentsCurrent s.log

theorem noSteal_iff {s : St} (hs : WellFormed s) {req : SearchRequest} {ia : InitAnswer}
    {sa : SearchAnswer} {b : Backend}
    (hb : pickBackend s req.databaseNames (s.sets.lookup req.resultSetName).isSome = some b)
    (hreplace : (s.sets.lookup req.resultSetName).isSome → req.replaceIndicator = true) :
    NoSteal s (.search req ia sa) ↔
      ∀ name set, s.sets.lookup name = some set → set.backend.session = b.session →
        set.setname = b.setname req.resultSetName → name = req.resultSetName := by
  have hmem := List.mem_of_find?_eq_some hb
  -- entries on `b` carry the set name that `b` gives them
  have hentry : ∀ name set, s.sets.lookup name = some set → set.backend.session = b.session →
      set.setname = b.setname name := by
    intro name set hl hses
    obtain ⟨hmem', hset⟩ := hs.entries name set hl
    rw [hset, hs.eq_of_session hmem' hmem hses]
  cases hnamed : b.namedResultSets with
  | true =>
    refine iff_of_true ?_ ?_
    · intro hr ho b' hb' hn
      rw [ho] at hb
      simp only [pickBackend, Bool.or_true, Bool.and_true] at hb
      rw [hb] at hb'
      cases hb'
      rw [hnamed] at hn
      cases hn
    · intro name set hl hses hset
      rw [hentry name set hl hses] at hset
      simpa [Backend.setname, hnamed] using hset
  | false =>
    have hover : (s.sets.lookup req.resultSetName).isSome = true := by
      have := List.find?_some hb
      simpa [hnamed] using (Bool.and_eq_true_iff.mp this).2
    have hfirst : s.backendList.find?
        (fun b => Util.match_ b.frontendDatabases req.databaseNames) = some b := by
      rw [hover] at hb
      simpa [pickBackend] using hb
    simp only [NoSteal, hover, hreplace hover, hfirst, Option.mem_def, Option.some.injEq,
      forall_eq', hnamed, forall_const]
    constructor
    · intro h name set hl hses _
      exact h name set hl hses
    · intro h name set hl hses
      refine h name set hl hses ?_
      rw [hentry name set hl hses]
      simp [Backend.setname, hnamed]

/-- One step keeps the structural part of the invariant; it keeps every entry current exactly when
it meets `NoSteal`. -/
theorem inv_step {rep : Rep} {s s' : St} {a : Label} (hi : Inv s) (h : step rep s a = some s') :
    WellFormed s' ∧ PresentsCurrent s'.log ∧ (AllCurrent s' ↔ NoSteal s a) := by
  simp only [step] at h
  split at h
  · cases h
  cases h
  obtain ⟨hg, hns⟩ | ⟨req, ia, sa, b, s1, rfl, hg, hb, hs', hcase⟩ |
    ⟨name, closed, set, rfl, hl, hs'⟩ := process_cases rep s a
  · exact ⟨hg.wellFormed hi.wellFormed, hg.presentsCurrent hi.presents,
      iff_of_true (hg.allCurrent hi.allCurrent) hns⟩
  · have hw1 := hg.wellFormed hi.wellFormed
    have ha1 := hg.allCurrent hi.allCurrent
    rw [hs']
    refine ⟨searchOn_wellFormed hw1 hb, searchOn_presents (hg.presentsCurrent hi.presents), ?_⟩
    rw [searchOn_allCurrent ha1]
    obtain ⟨rfl, hpick, hreplace⟩ | ⟨hfresh, hns⟩ := hcase
    · exact (noSteal_iff hi.wellFormed hpick hreplace).symm
    · -- no entry refers to a backend that has just been opened
      refine iff_of_true ?_ hns
      intro name set hset hses
      rw [hg.sets] at hset
      have := hi.wellFormed.ids _ (hi.wellFormed.entries name set hset).1
      omega
  · rw [hs']
    refine ⟨⟨hi.wellFormed.ids, hi.wellFormed.distinct, hi.wellFormed.entries⟩,
      ⟨hi.allCurrent name set hl, hi.presents⟩, iff_of_true ?_ trivial⟩
    intro name' set' hl'
    show Current (_ :: s.log) _ _ _
    rw [Current.cons rfl rfl]
    exact hi.allCurrent name' set' hl'

theorem inv_of_reach {rep : Rep} {s : St} (h : Reach (step rep) init NoSteal s) : Inv s := by
  refine h.invariant ?_ ?_
  · rintro s ⟨hb, hs, -, hl⟩
    refine ⟨⟨by simp [hb], by simp [hb], by simp [hs]⟩, by intro n set; simp [hs], ?_⟩
    rw [hl]
    trivial
  · intro s a s' hi hok hs
    obtain ⟨hw, hp, hc⟩ := inv_step hi hs
    exact ⟨hw, hc.mpr hok, hp⟩

/-- In every run whose steps meet `NoSteal`, different entries of `m_sets` never stand for the same
set of the same backend, and every present was sent to the set of the last successful search for
its name, with no search sent to it after that. A next step leaves every entry current exactly when
it meets `NoSteal` too. -/
theorem sets_current {rep : Rep} {s : St} (h : Reach (step rep) init NoSteal s) :
    (∀ name name' set set', s.sets.lookup name = some set → s.sets.lookup name' = some set' →
      name ≠ name' → (set.backend.session, set.setname) ≠ (set'.backend.session, set'.setname)) ∧
    AllCurrent s ∧ PresentsCurrent s.log ∧
    ∀ a s', step rep s a = some s' → (AllCurrent s' ↔ NoSteal s a) := by
  have hi := inv_of_reach h
  refine ⟨?_, hi.allCurrent, hi.presents, fun a s' hs => (inv_step hi hs).2.2⟩
  intro name name' set set' hl hl' hne heq
  have hc := hi.allCurrent name set hl
  have hc' := hi.allCurrent name' set' hl'
  simp only [Prod.mk.injEq] at heq
  rw [heq.1, heq.2] at hc
  exact hne (hc.name_inj hc')

/-! ## Taking the backend of another entry -/

theorem forall_lookup_iff {t : Table String Set} {p : String → Set → Prop} :
    (∀ e ∈ t.entries, p e.1 e.2) ↔ ∀ name set, t.lookup name = some set → p name set := by
  constructor
  · intro h name set hl
    exact h ⟨name, set⟩ (AList.mem_lookup_iff.mp hl)
  · intro h e he
    exact h e.1 e.2 (AList.mem_lookup_iff.mpr he)

instance (s : St) : ∀ a, Decidable (NoSteal s a)
  | .search req _ _ =>
    have : ∀ b : Backend, Decidable (∀ name set, s.sets.lookup name = some set →
        set.backend.session = b.session → name = req.resultSetName) :=
      fun _ => decidable_of_iff _ forall_lookup_iff
    inferInstanceAs (Decidable (req.replaceIndicator = true →
      (s.sets.lookup req.resultSetName).isSome →
      ∀ b ∈ s.backendList.find? (fun b => Util.match_ b.frontendDatabases req.databaseNames),
        b.namedResultSets = false → ∀ name set, s.sets.lookup name = some set →
          set.backend.session = b.session → name = req.resultSetName))
  | .init | .present .. | .scan .. | .close | .unsupported | .otherSession => isTrue trivial

/-- One virtual database `db` with one target. -/
def oneDatabase : Rep where
  maps := [⟨"db", ["target"], ""⟩]
  matchGlob := fun pattern db => pattern = db
  hostArgs := fun _ => none

def emptySession : St := ⟨[], ∅, 0, false, []⟩

/-- A search for `db`, on a target that accepts the init but grants no named result sets. -/
def searchFor (name : String) : Label :=
  .search ⟨name, true, ["db"]⟩ ⟨some ⟨false, true, none⟩, false⟩ ⟨some .none, false⟩

/-- Two sets, the first of them replaced, and a present on the second. -/
def replaceFirst : List Label :=
  [searchFor "1", searchFor "2", searchFor "1", .present "2" false]

theorem sets_current_replaceFirst :
    ∃ s : St, s.sets.keys = ["1", "2"] ∧ AllCurrent s ∧ PresentsCurrent s.log := by
  have hinit : init emptySession := ⟨rfl, rfl, rfl, rfl⟩
  have hok : RunOk (step oneDatabase) NoSteal emptySession replaceFirst := by decide
  have hrun : (run (step oneDatabase) emptySession replaceFirst).any
      (fun s => s.sets.keys = ["1", "2"]) := by
    decide
  obtain ⟨s, hs, hp⟩ := Reach.exists_of_run hinit hok hrun
  have hcur := sets_current hs
  exact ⟨s, by simpa using hp, hcur.2.1, hcur.2.2.1⟩

/-- When the second of two sets is replaced, the search goes to the backend of the first, and both
entries stand for the set `default` of it. -/
theorem replaceSecond_aliases :
    ¬ ∀ rep s, Reach (step rep) init Any s →
      ∀ name name' set set', s.sets.lookup name = some set → s.sets.lookup name' = some set' →
        name ≠ name' →
        (set.backend.session, set.setname) ≠ (set'.backend.session, set'.setname) := by
  intro h
  have hinit : init emptySession := ⟨rfl, rfl, rfl, rfl⟩
  have hrun : (run (step oneDatabase) emptySession
      [searchFor "1", searchFor "2", searchFor "2"]).any
      (fun s => (s.sets.lookup "1").isSome && s.sets.lookup "1" = s.sets.lookup "2") := by
    decide
  obtain ⟨s, hs, hp⟩ := Reach.exists_of_run hinit (runOk_any _ _) hrun
  simp only [Bool.and_eq_true, decide_eq_true_eq, Option.isSome_iff_exists] at hp
  obtain ⟨⟨set, h1⟩, h2⟩ := hp
  rw [h1] at h2
  exact h oneDatabase s hs "1" "2" set set h1 h2.symm (by decide) rfl

end VirtualDB
end Metaproxy
