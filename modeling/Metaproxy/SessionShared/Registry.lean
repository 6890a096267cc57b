import Metaproxy.SessionShared.ClassRuns

/-!
# SessionShared.Registry

`m_backend_map` against the classes that the frontends have. As long as `expire_classes` erases no
class that has instances, and `create_backend` adds none to a class that was erased
(`KeepsRegistry`), every class with instances is found under its key (`Registered`), each pass of
the worker expires it (`expired_of_pass`), and clients with equal keys share it (`registry_covers`).
Both can fail: the worker does not ask whether a frontend still has the class.
-/

namespace Metaproxy
namespace SessionShared

open Lib BackendClass

variable {cfg : Config} {s s' : St} {e : Label} {client : Client}

/-! ## Where instances come from -/

theorem modify_nil {bc : BackendClass} {i : InstanceId} {f : BackendInstance → BackendInstance} :
    (bc.modify i f).backendList = [] ↔ bc.backendList = [] := List.map_eq_nil_iff

theorem countId_nil {bc : BackendClass} {i : InstanceId} :
    (bc.countId i).backendList = [] ↔ bc.backendList = [] := by
  unfold countId
  split
  · exact modify_nil
  · exact Iff.rfl

/-- Only a creation adds to an empty class. -/
theorem Moves.nil {now : Time} {fresh : Nat} {bc bc' : BackendClass} {v v' : View}
    (h : Moves cfg now fresh client bc v bc' v') (hv : v ≠ .creating)
    (hnil : bc.backendList = []) : bc'.backendList = [] := by
  cases h with
  | quiet hsame => exact hsame.backendList.trans hnil
  | giveUp hsame _ => exact hsame.backendList.trans hnil
  | crash _ _ => exact hnil
  | beginCreate => exact hnil
  | created => exact absurd rfl hv
  | notCreated => exact absurd rfl hv
  | take _ _ => exact modify_nil.mpr hnil
  | found _ _ _ _ _ _ => exact modify_nil.mpr hnil
  | replace _ _ _ _ _ => exact modify_nil.mpr (modify_nil.mpr hnil)
  | add _ _ _ => exact modify_nil.mpr (countId_nil.mpr hnil)
  | choose _ => exact countId_nil.mpr hnil
  | timestamp _ => exact modify_nil.mpr hnil
  | send _ _ => exact hnil
  | push _ _ _ => exact modify_nil.mpr hnil
  | cached => exact hnil
  | forward => exact hnil
  | release _ => exact modify_nil.mpr hnil
  | remove _ =>
    simp only [removeBackend, hnil]
    rfl

theorem threadStep_nil {now : Time} {fresh : Nat} {bc : BackendClass} {f : Frontend} {pc : Pc}
    {o : Outcome} {a : After} (h : threadStep cfg now fresh client bc f pc o = some a)
    (hnil : bc.backendList = []) (hne : a.backendClass.backendList ≠ []) :
    ∃ c o', pc = .initMove c ∧ o = .initAnswered o' ∧ o'.accepted = true := by
  have hv : pc.view = .creating := by
    by_contra hv
    exact hne ((threadStep_moves h).nil hv hnil)
  cases pc with
  | create c =>
    cases o with
    | go =>
      cases h
      exact absurd hnil hne
    | _ => cases h
  | initMove c =>
    cases o with
    | initAnswered o' =>
      refine ⟨c, o', rfl, rfl, ?_⟩
      by_contra hno
      have hno' : o'.accepted = false := by simpa using hno
      cases h
      refine hne ?_
      simp only [createdStep, hno', Bool.false_eq_true, if_false]
      have hlist := ((createdBackend_spec bc client fresh now o').2.2.2.2 hno').1
      cases c <;> exact hlist.trans hnil
    | _ => cases h
  | returned g =>
    simp only [Pc.view, GetSet.serving] at hv
    split at hv <;> cases hv
  | presentTimestamp b set g => cases b <;> cases hv
  | release b next => cases b <;> cases hv
  | remove b next => cases b <;> cases hv
  | _ => cases hv

/-! ## The invariant -/

/-- A class with instances that a frontend has is the one that `m_backend_map` has for its key. -/
def Registered (s : St) : Prop :=
  ∀ client f, (s.threads client).frontend = some f →
    (s.classes f.backendClass).backendList ≠ [] →
    s.backendMap.lookup f.key = some f.backendClass

/-- `create_backend` adds an instance to a registered class only, and `expire_classes` erases no
class with instances that a frontend has. -/
def KeepsRegistry (s : St) : Label → Prop
  | .thread client (.initAnswered o) => ∀ f ∈ (s.threads client).frontend, o.accepted = true →
      s.backendMap.lookup f.key = some f.backendClass
  | .worker => ∀ n, s.worker = .emptied n → ∀ e ∈ s.backendMap.entries[n]?,
      (∃ client, ∃ f ∈ (s.threads client).frontend, f.backendClass = e.2) →
      (s.classes e.2).backendList = []
  | _ => True

/-- Sufficient for `KeepsRegistry`, whoever has the class. -/
def keepsRegistry (s : St) : Label → Bool
  | .thread client (.initAnswered o) => (s.threads client).frontend.all fun f =>
      !o.accepted || s.backendMap.lookup f.key = some f.backendClass
  | .worker =>
    match s.worker with
    | .emptied n => s.backendMap.entries[n]?.all fun e => (s.classes e.2).backendList.isEmpty
    | _ => true
  | _ => true

theorem keepsRegistry_sound (h : keepsRegistry s e = true) : KeepsRegistry s e := by
  unfold KeepsRegistry
  split
  · rename_i client o
    intro f hf haccepted
    simp only [keepsRegistry] at h
    rw [Option.mem_def.mp hf] at h
    simpa [haccepted] using h
  · intro n hn e he _
    simp only [keepsRegistry, hn] at h
    rw [Option.mem_def.mp he] at h
    simpa using h
  · trivial

theorem registered_init (h : init s) : Registered s := by
  intro client f hf
  rw [h.2.2.1 client] at hf
  cases hf

theorem registered_request (h : Registered s) (hl : Linked s) (hs : Requested s s' client) :
    Registered s' := by
  cases hs with
  | ignored heq => exact heq ▸ h
  | started th heq hst =>
    intro client' f' hf' hne
    rcases hst.frontends client' f' hf' with ⟨f, hf, hclass, hkey⟩ | hk
    · subst heq
      rw [hclass] at hne ⊢
      rw [hkey]
      exact h client' f hf hne
    · exact hk
  | newClass th key hst _ hnone hmap hclasses hmade =>
    intro client' f' hf' hne
    rcases hst.frontends client' f' hf' with ⟨f, hf, hclass, hkey⟩ | hk
    · have hlt := (hl.frontend client' f hf).1
      rw [hclass, hclasses, Function.update_of_ne (by omega)] at hne
      rw [hmap, hclass, hkey]
      exact Table.lookup_insert_of hnone _ (h client' f hf hne)
    · exact hk

theorem stepThread_frontend {o : Outcome} {f : Frontend} {a : After}
    (hts : ThreadStepped cfg s s' client o f a) {client' : Client} {f' : Frontend}
    (hf' : (s'.threads client').frontend = some f') :
    ∃ f0, (s.threads client').frontend = some f0 ∧ SameClass f0 f' := by
  rw [hts.state] at hf'
  simp only [St.setThread] at hf'
  by_cases heq : client' = client
  · subst heq
    rw [Function.update_self] at hf'
    exact ⟨f, hts.frontend, (threadStep_keeps hts.step).some f' hf'⟩
  · rw [Function.update_of_ne heq] at hf'
    exact frontend_refl client' f' hf'

theorem registered_thread {o : Outcome} (h : Registered s) (hl : Linked s)
    (hok : KeepsRegistry s (.thread client o)) (hs : stepThread cfg s client o = some s') :
    Registered s' := by
  obtain ⟨f, a, hts⟩ := stepThread_spec hs
  intro client' f' hf' hne
  obtain ⟨f0, hf0, hclass, hkey⟩ := stepThread_frontend hts hf'
  have hmap : s'.backendMap = s.backendMap := by rw [hts.state]; rfl
  rw [hmap, hclass, hkey]
  by_cases hold : (s.classes f0.backendClass).backendList = []
  · -- the class was empty: this step has added the first instance
    have hsame : f0.backendClass = f.backendClass := by
      by_contra hother
      rw [hts.state, hclass] at hne
      simp only [Function.update_of_ne hother] at hne
      exact hne hold
    have hne' : a.backendClass.backendList ≠ [] := by
      rw [hts.state, hclass, hsame] at hne
      simpa using hne
    obtain ⟨c, o', -, rfl, haccepted⟩ := threadStep_nil hts.step (hsame ▸ hold) hne'
    have hreg := hok f hts.frontend haccepted
    have hkeys : f0.key = f.key := by
      rw [← (hl.frontend client' f0 hf0).2, hsame, (hl.frontend client f hts.frontend).2]
    rw [hsame, hkeys]
    exact hreg
  · exact h client' f0 hf0 hold

theorem registered_worker (h : Registered s) (hok : KeepsRegistry s .worker)
    (hs : stepWorker cfg s = some s') : Registered s' := by
  have hframe := (stepWorker_frame hs).threads
  intro client f hf hne
  rw [hframe] at hf
  unfold stepWorker at hs
  split at hs
  case h_1 =>
    cases hs
    exact h client f hf hne
  case h_2 =>
    split at hs <;> cases hs <;> exact h client f hf hne
  case h_3 n now hworker =>
    obtain ⟨e, he, rfl⟩ := Option.map_eq_some_iff.mp hs
    refine h client f hf fun hnil => hne ?_
    simp only
    by_cases heq : f.backendClass = e.2
    · rw [heq, Function.update_self]
      rw [heq] at hnil
      simp only [expireInstances, hnil]
      rfl
    · rwa [Function.update_of_ne heq]
  case h_4 n hworker =>
    obtain ⟨⟨k, c⟩, he, rfl⟩ := Option.map_eq_some_iff.mp hs
    have hreg := h client f hf hne
    have hkey : f.key ≠ k := by
      rintro rfl
      rw [Table.lookup_of_getElem he] at hreg
      have hc : c = f.backendClass := Option.some.inj hreg
      subst hc
      exact hne (hok n hworker _ he ⟨client, f, hf, rfl⟩)
    simp only
    rwa [AList.lookup_erase_ne hkey]

theorem registered_step (h : Registered s) (hl : Linked s) (hok : KeepsRegistry s e)
    (hs : step cfg s e = some s') : Registered s' := by
  cases e with
  | clock now =>
    cases hs
    exact h
  | request client r => exact registered_request h hl (startRequest_requested hs)
  | thread client o => exact registered_thread h hl hok hs
  | worker => exact registered_worker h hok hs

theorem registered_of_reach (h : Reach (step cfg) init KeepsRegistry s) : Registered s :=
  h.invariant_with (fun _ hr => linked_of_reach hr) (fun _ => registered_init)
    fun _ _ _ hl hI hok hs => registered_step hI hl hok hs

/-- A step that breaks the condition leaves a class with instances outside the map. -/
theorem not_registered (hl : Linked s) (hs : step cfg s e = some s')
    (hok : ¬ KeepsRegistry s e) : ¬ Registered s' := by
  intro hreg
  unfold KeepsRegistry at hok
  split at hok
  · rename_i client o
    obtain ⟨f, a, hts⟩ := stepThread_spec hs
    simp only [not_forall, exists_prop] at hok
    obtain ⟨f', hf', haccepted, hnot⟩ := hok
    have hsame : f = f' := Option.some.inj (hts.frontend.symm.trans hf')
    subst hsame
    have hstep := hts.step
    generalize (s.threads client).pc = pc at hstep
    cases pc with
    | initMove c =>
      cases hstep
      have hfront : (s'.threads client).frontend = some f := by
        rw [hts.state]
        simp [St.setThread, createdStep_frontend]
      have hlist : (s'.classes f.backendClass).backendList ≠ [] := by
        have hspec := ((createdBackend_spec (s.classes f.backendClass) client s.fresh s.clock
          o).2.2.2.1 haccepted).1
        rw [hts.state]
        simp only [Function.update_self, createdStep, haccepted, if_pos]
        cases c <;> simp [hspec]
      have hmap : s'.backendMap = s.backendMap := by rw [hts.state]; rfl
      have hlookup := hreg client f hfront hlist
      rw [hmap] at hlookup
      exact hnot hlookup
    | returned g => cases hstep
    | presentTimestamp b set g => cases b <;> cases hstep
    | release b next => cases b <;> cases hstep
    | remove b next => cases b <;> cases hstep
    | _ => cases hstep
  · simp only [not_forall, exists_prop] at hok
    obtain ⟨n, hworker, ⟨k, c⟩, he, ⟨client, f, hf, hclass⟩, hne⟩ := hok
    have hs' : s' = { s with backendMap := s.backendMap.erase k, worker := .visit 0 } := by
      simp only [step, stepWorker, hworker] at hs
      rw [Option.mem_def.mp he] at hs
      exact (Option.some.inj hs).symm
    subst hs'
    subst hclass
    have hlookup := hreg client f hf hne
    have hkey : f.key = k := by
      rw [← (hl.frontend client f hf).2]
      exact (hl.map k _ (Table.lookup_of_getElem he)).2
    rw [hkey, AList.lookup_erase] at hlookup
    cases hlookup
  · exact hok trivial

/-! ## The worker -/

/-- A step of the worker on these labels runs `expire_instances` of the class. -/
def Expired (cfg : Config) (c : Nat) : St → List Label → Prop
  | _, [] => False
  | s, e :: es =>
    (e = .worker ∧ ∃ n now k, s.worker = .timed n now ∧ s.backendMap.entries[n]? = some ⟨k, c⟩) ∨
      ∃ s' ∈ step cfg s e, Expired cfg c s' es

/-- The worker is in a pass, and the class under the key is still to come. -/
def Ahead (k : InitKey) (c : Nat) (s : St) : Prop :=
  s.backendMap.lookup k = some c ∧
    match s.worker with
    | .idle => False
    | .visit n | .timed n _ => ∃ m, n ≤ m ∧ s.backendMap.entries[m]? = some ⟨k, c⟩
    | .emptied n => s.backendMap.entries[n]? ≠ some ⟨k, c⟩

theorem ahead_of_frame {k : InitKey} {c : Nat} (h : Ahead k c s) (hmap : s'.backendMap = s.backendMap)
    (hworker : s'.worker = s.worker) : Ahead k c s' := by
  unfold Ahead
  rw [hmap, hworker]
  exact h

theorem ahead_worker {k : InitKey} {c : Nat} (h : Ahead k c s) (hs : stepWorker cfg s = some s') :
    (∃ n now, s.worker = .timed n now ∧ s.backendMap.entries[n]? = some ⟨k, c⟩) ∨
      Ahead k c s' := by
  obtain ⟨hlookup, hwhere⟩ := h
  unfold stepWorker at hs
  split at hs
  case h_1 hworker =>
    rw [hworker] at hwhere
    exact hwhere.elim
  case h_2 n hworker =>
    rw [hworker] at hwhere
    obtain ⟨m, hnm, hm⟩ := hwhere
    have hlt : m < s.backendMap.entries.length := (List.getElem?_eq_some_iff.mp hm).1
    rw [if_pos (by omega)] at hs
    cases hs
    exact .inr ⟨hlookup, m, hnm, hm⟩
  case h_3 n now hworker =>
    rw [hworker] at hwhere
    obtain ⟨m, hnm, hm⟩ := hwhere
    obtain ⟨e, he, rfl⟩ := Option.map_eq_some_iff.mp hs
    by_cases heq : e = ⟨k, c⟩
    · exact .inl ⟨n, now, hworker, heq ▸ he⟩
    · refine .inr ⟨hlookup, ?_⟩
      have hne : s.backendMap.entries[n]? ≠ some ⟨k, c⟩ := fun hn =>
        heq (Option.some.inj (he.symm.trans hn))
      have hlt : n < m := by
        rcases Nat.lt_or_eq_of_le hnm with hlt | rfl
        · exact hlt
        · exact absurd hm hne
      simp only
      split
      · rename_i _ hw
        split at hw <;> cases hw
      · rename_i _ n' hw
        split at hw
        · cases hw
        · cases hw
          exact ⟨m, hlt, hm⟩
      · rename_i _ n' now' hw
        split at hw <;> cases hw
      · rename_i _ n' hw
        split at hw
        · cases hw
          exact hne
        · cases hw
  case h_4 n hworker =>
    rw [hworker] at hwhere
    obtain ⟨⟨k', c'⟩, he, rfl⟩ := Option.map_eq_some_iff.mp hs
    have hkey : k ≠ k' := by
      rintro rfl
      rw [Table.lookup_of_getElem he] at hlookup
      cases hlookup
      exact hwhere he
    have hlookup' : (s.backendMap.erase k').lookup k = some c := by
      rwa [AList.lookup_erase_ne hkey]
    obtain ⟨m, hm⟩ := Table.getElem_of_lookup hlookup'
    exact .inr ⟨hlookup', m, Nat.zero_le m, hm⟩

/-- No init takes place during a pass, so the map changes by the worker's erasures alone. -/
theorem ahead_step {k : InitKey} {c : Nat} (h : Ahead k c s) (hs : step cfg s e = some s') :
    (e = .worker ∧
      ∃ n now, s.worker = .timed n now ∧ s.backendMap.entries[n]? = some ⟨k, c⟩) ∨
      Ahead k c s' := by
  cases e with
  | clock now =>
    cases hs
    exact .inr (ahead_of_frame h rfl rfl)
  | request client r =>
    refine .inr ?_
    cases startRequest_requested hs with
    | ignored heq => exact heq ▸ h
    | started th heq hst =>
      subst heq
      exact ahead_of_frame h rfl rfl
    | newClass th key hst hidle _ _ _ _ =>
      have hwhere := h.2
      rw [hidle] at hwhere
      exact hwhere.elim
  | thread client o =>
    obtain ⟨f, a, hts⟩ := stepThread_spec hs
    exact .inr (ahead_of_frame h (by rw [hts.state]; rfl) (by rw [hts.state]; rfl))
  | worker =>
    rcases ahead_worker h hs with hnow | hahead
    · exact .inl ⟨rfl, hnow⟩
    · exact .inr hahead

theorem expired_of_ahead {k : InitKey} {c : Nat} {es : List Label} (h : Ahead k c s)
    (hr : run (step cfg) s es = some s') (hidle : s'.worker = .idle) : Expired cfg c s es := by
  induction es generalizing s with
  | nil =>
    cases hr
    have hwhere := h.2
    rw [hidle] at hwhere
    exact hwhere.elim
  | cons e es ih =>
    obtain ⟨s1, h1, h2⟩ := Option.bind_eq_some_iff.mp hr
    rcases ahead_step h h1 with ⟨heq, n, now, hn, hk⟩ | hahead
    · exact .inl ⟨heq, n, now, k, hn, hk⟩
    · exact .inr ⟨s1, h1, ih hahead h2⟩

/-- A whole pass of the worker, whatever the clients do meanwhile, expires every class that is in
the map when it begins. -/
theorem expired_of_pass {k : InitKey} {c : Nat} {es : List Label}
    (h : s.backendMap.lookup k = some c) (hbegin : s.worker = .idle)
    (hr : run (step cfg) s (.worker :: es) = some s') (hidle : s'.worker = .idle) :
    Expired cfg c s (.worker :: es) := by
  obtain ⟨s1, h1, h2⟩ := Option.bind_eq_some_iff.mp hr
  have hs1 : s1 = { s with worker := .visit 0 } := by
    simp only [step, stepWorker, hbegin] at h1
    exact (Option.some.inj h1).symm
  obtain ⟨m, hm⟩ := Table.getElem_of_lookup h
  have hahead : Ahead k c s1 := by
    subst hs1
    exact ⟨h, m, Nat.zero_le m, hm⟩
  exact .inr ⟨s1, h1, expired_of_ahead hahead h2 hidle⟩

/-! ## All runs -/

structure Covered (cfg : Config) (s : St) : Prop where
  registered : Registered s
  /-- The next pass of the worker expires every class with instances that a frontend has. -/
  expired : ∀ client f, (s.threads client).frontend = some f →
    (s.classes f.backendClass).backendList ≠ [] → ∀ es s', s.worker = .idle →
      run (step cfg) s (.worker :: es) = some s' → s'.worker = .idle →
      Expired cfg f.backendClass s (.worker :: es)
  /-- Frontends with the same key share the class, if theirs have instances. -/
  shared : ∀ client f client' f', (s.threads client).frontend = some f →
    (s.threads client').frontend = some f' → f.key = f'.key →
    (s.classes f.backendClass).backendList ≠ [] → (s.classes f'.backendClass).backendList ≠ [] →
    f.backendClass = f'.backendClass

theorem Registered.covered (h : Registered s) : Covered cfg s where
  registered := h
  expired client f hf hne _ _ hbegin hr hidle :=
    expired_of_pass (h client f hf hne) hbegin hr hidle
  shared client f client' f' hf hf' hkey hne hne' := by
    have hc := h client f hf hne
    rw [hkey, h client' f' hf' hne'] at hc
    exact (Option.some.inj hc).symm

/-- In every run whose steps keep the registry, the map covers every instance that a client can
use; and a step that does not keep it leaves such an instance outside the map. -/
theorem registry_covers (h : Reach (step cfg) init KeepsRegistry s) :
    Covered cfg s ∧
      ∀ e s', step cfg s e = some s' → (Covered cfg s' ↔ KeepsRegistry s e) := by
  refine ⟨(registered_of_reach h).covered, fun e s' hs => ⟨fun hcov => ?_, fun hok => ?_⟩⟩
  · by_contra hok
    exact not_registered (linked_of_reach h) hs hok hcov.registered
  · exact (registered_of_reach (h.next hok hs)).covered

/-- Two clients share a class, and the worker makes a pass. -/
theorem registry_covers_shared : ∃ s, Reach (step .default) init KeepsRegistry s ∧
    (s.classes 0).backendList.length = 1 ∧ Covered .default s := by
  let script := inits 0 true ++ .request 1 (.init plainInit) :: goes 1 2 ++
    List.replicate 4 .worker
  have hok : RunOk (step .default) (fun s e => keepsRegistry s e = true) St.start script := by
    decide
  have hrun : (run (step .default) St.start script).any
      (fun s => (s.classes 0).backendList.length = 1) = true := by decide
  obtain ⟨s, hr, hp⟩ := Reach.exists_of_run init_start hok hrun
  have hr' := hr.mono fun _ _ => keepsRegistry_sound
  exact ⟨s, hr', of_decide_eq_true hp, (registry_covers hr').1⟩

/-- The worker erases the class of a client that is idle for long; the next search of the client
then makes an instance that the worker never sees. -/
theorem idleClient_unregistered :
    ¬ ∀ (cfg : Config) (s : St), Reach (step cfg) init Any s → Covered cfg s := by
  intro h
  let script := inits 0 true ++ .clock 91 :: List.replicate 5 .worker ++
    .request 0 (.search (searchTitle "1" 120)) :: goes 0 2 ++
    [.thread 0 (.initAnswered (accepts true))]
  have hrun : (run (step .default) St.start script).any (fun s =>
      (s.threads 0).frontend.any fun f => (s.classes f.backendClass).backendList ≠ [] ∧
        s.backendMap.lookup f.key ≠ some f.backendClass) = true := by decide
  obtain ⟨s, hr, hp⟩ := Reach.exists_of_run init_start (runOk_any _ _) hrun
  obtain ⟨f, hf, hbad⟩ := (Option.any_eq_true _ _).mp hp
  have hbad' := of_decide_eq_true hbad
  exact hbad'.2 ((h .default s hr).registered 0 f hf hbad'.1)

end SessionShared
end Metaproxy
