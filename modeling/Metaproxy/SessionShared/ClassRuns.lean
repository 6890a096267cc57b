import Metaproxy.SessionShared.Moves

/-!
# SessionShared.ClassRuns

What a run of the filter looks like from one backend class. `St.classAt` takes a class with the
views of all clients out of a state, and `ClassStep` says how it goes on, whoever moves. What holds
of a new class and survives every `ClassStep` holds of all the classes of all reachable states
(`classInvariant`).
-/

namespace Metaproxy
namespace SessionShared

open Lib BackendClass

/-- A backend class and what every client has to do with it. -/
structure ClassState where
  clock : Time
  fresh : Nat
  backendClass : BackendClass
  views : Client → View

inductive ClassStep (cfg : Config) : ClassState → ClassState → Prop where
  /-- Something happens elsewhere. -/
  | rest {a a'} : Same a.backendClass a'.backendClass → a'.views = a.views → a.fresh ≤ a'.fresh →
      ClassStep cfg a a'
  | move {a} (client : Client) {bc v} :
      Moves cfg a.clock a.fresh client a.backendClass (a.views client) bc v →
      ClassStep cfg a ⟨a.clock, a.fresh + 1, bc, Function.update a.views client v⟩
  | expire {a} (now : Time) :
      ClassStep cfg a { a with backendClass := a.backendClass.expireInstances cfg now a.clock }

/-- A class that has just been made. -/
def ClassState.New (a : ClassState) : Prop :=
  (∃ key, a.backendClass = .new key) ∧ ∀ client, a.views client = .away

/-- What the thread has to do with the class `c`. -/
def Thread.viewOf (c : Nat) (th : Thread) : View :=
  match th.frontend with
  | some f => if f.backendClass = c then th.pc.view else .away
  | none => .away

def St.classAt (s : St) (c : Nat) : ClassState where
  clock := s.clock
  fresh := s.fresh
  backendClass := s.classes c
  views client := (s.threads client).viewOf c

theorem viewOf_away {c : Nat} {th : Thread} (h : th.pc.view = .away) : th.viewOf c = .away := by
  unfold Thread.viewOf
  split
  · split
    · exact h
    · rfl
  · rfl

theorem viewOf_own {th : Thread} {f : Frontend} (h : th.frontend = some f) :
    th.viewOf f.backendClass = th.pc.view := by
  unfold Thread.viewOf
  rw [h]
  simp

theorem viewOf_other {c : Nat} {th : Thread} {f : Frontend} (h : th.frontend = some f)
    (hc : f.backendClass ≠ c) : th.viewOf c = .away := by
  unfold Thread.viewOf
  rw [h]
  simp [hc]

/-! ## Requests -/

/-- Where `process` leaves an idle client before the first critical section of its class. -/
def Pc.Starts : Pc → Prop
  | .idle | .init _ | .scan => True
  | .getSet g => g = .call g.request g.databases g.query
  | _ => False

theorem Pc.Starts.view {pc : Pc} (h : pc.Starts) : pc.view = .away := by
  cases pc <;> first | rfl | cases h

/-- The frontend keeps its class and key. -/
def SameClass (f f' : Frontend) : Prop := f'.backendClass = f.backendClass ∧ f'.key = f.key

/-- A client sends a request: its thread starts, and its frontend is the one it had or that of an
init for a key with a class. -/
structure Started (s s' : St) (client : Client) (th : Thread) : Prop where
  idle : (s.threads client).pc = .idle
  starts : th.pc.Starts
  threads : s'.threads = Function.update s.threads client th
  frontend : ∀ f', th.frontend = some f' →
    (∃ f, (s.threads client).frontend = some f ∧ SameClass f f') ∨
      s'.backendMap.lookup f'.key = some f'.backendClass
  clock : s'.clock = s.clock
  fresh : s'.fresh = s.fresh
  worker : s'.worker = s.worker

theorem Started.setThread {s : St} {client : Client} {th : Thread}
    (hidle : (s.threads client).pc = .idle) (hstarts : th.pc.Starts)
    (hf : ∀ f', th.frontend = some f' →
      (∃ f, (s.threads client).frontend = some f ∧ SameClass f f') ∨
        s.backendMap.lookup f'.key = some f'.backendClass) :
    Started s (s.setThread client th) client th :=
  ⟨hidle, hstarts, rfl, hf, rfl, rfl, rfl⟩

/-- The three things a request can do to the whole state. -/
inductive Requested (s s' : St) (client : Client) : Prop where
  | ignored : s' = s → Requested s s' client
  | started (th : Thread) : s' = s.setThread client th → Started s s' client th →
      Requested s s' client
  | newClass (th : Thread) (key : InitKey) : Started s s' client th → s.worker = .idle →
      s.backendMap.lookup key = none → s'.backendMap = s.backendMap.insert key s.made →
      s'.classes = Function.update s.classes s.made (.new key) → s'.made = s.made + 1 →
      Requested s s' client

variable {cfg : Config} {s s' : St} {client : Client}

theorem startInit_requested {req : InitRequest} (hidle : (s.threads client).pc = .idle)
    (h : startInit cfg s client req = some s') : Requested s s' client := by
  unfold startInit at h
  split at h
  · cases h
  · rename_i hworker
    simp only at h
    split at h
    · rename_i c hc
      cases h
      refine .started _ rfl (.setThread hidle trivial fun f' hf' => .inr ?_)
      cases hf'
      exact hc
    · rename_i hnone
      cases h
      refine .newClass ⟨some ⟨InitKey.ofRequest cfg req, s.made, ∅⟩, .init req, none⟩
        (InitKey.ofRequest cfg req) ⟨hidle, trivial, rfl, fun f' hf' => .inr ?_, rfl, rfl, rfl⟩
        (by simpa using hworker) hnone rfl rfl rfl
      cases hf'
      exact AList.lookup_insert _

theorem startRequest_requested {r : ClientRequest} (h : startRequest cfg s client r = some s') :
    Requested s s' client := by
  have same (f : Frontend) (sets : FrontendSets) (hf : (s.threads client).frontend = some f) :
      ∀ f', some { f with sets } = some f' →
        (∃ f, (s.threads client).frontend = some f ∧ SameClass f f') ∨
          s.backendMap.lookup f'.key = some f'.backendClass := by
    rintro f' ⟨⟩
    exact .inl ⟨f, hf, rfl, rfl⟩
  have none_ : ∀ f' : Frontend, none = some f' →
      (∃ f, (s.threads client).frontend = some f ∧ SameClass f f') ∨
        s.backendMap.lookup f'.key = some f'.backendClass := nofun
  unfold startRequest at h
  split at h
  case h_1 req hidle hf => exact startInit_requested hidle h
  case h_2 hidle hf _ =>
    cases h
    exact .ignored rfl
  case h_3 hidle hf =>
    cases h
    exact .started _ rfl (.setThread hidle trivial none_)
  case h_4 f req hidle hf =>
    split at h
    · cases h
      exact .started _ rfl (.setThread hidle trivial (same f _ hf))
    · cases h
      exact .started _ rfl (.setThread hidle rfl (same f _ hf))
  case h_5 f req hidle hf =>
    split at h
    · cases h
      exact .started _ rfl (.setThread hidle trivial (same f f.sets hf))
    · cases h
      exact .started _ rfl (.setThread hidle rfl (same f f.sets hf))
  case h_6 f hidle hf =>
    cases h
    exact .started _ rfl (.setThread hidle trivial (same f f.sets hf))
  case h_7 hidle hf =>
    cases h
    exact .started _ rfl (.setThread hidle trivial none_)
  case h_8 hidle hf =>
    cases h
    exact .started _ rfl (.setThread hidle trivial none_)
  case h_9 => cases h

/-! ## Steps of a thread -/

/-- The frontend stays with its class, or the session of the client is closed. -/
structure Keeps (f : Frontend) (a : After) : Prop where
  some : ∀ f', a.frontend = some f' → SameClass f f'
  none : a.frontend = none → a.pc = .idle

theorem keeps_self {f : Frontend} {a : After} (h : a.frontend = some f) : Keeps f a where
  some f' hf' := by
    rw [h] at hf'
    cases hf'
    exact ⟨rfl, rfl⟩
  none hnone := by
    rw [h] at hnone
    cases hnone

section

variable {now : Time} {fresh : Nat} {bc : BackendClass} {f : Frontend}

theorem overrideStep_frontend (g : GetSet) :
    (overrideStep cfg now client bc f g).frontend = some f := by
  unfold overrideStep
  split
  · rfl
  · rfl
  · split <;> rfl

theorem getSetStep_frontend (g : GetSet) :
    (getSetStep cfg now client bc f g).frontend = some f := by
  unfold getSetStep
  split
  · split <;> rfl
  · exact overrideStep_frontend g

theorem createdStep_frontend (c : Creator) (o : InitOutcome) :
    (createdStep now fresh client bc f c o).frontend = some f := by
  unfold createdStep
  simp only
  split <;> cases c <;> rfl

theorem timestampStep_frontend (i : InstanceId) (pc : Pc) :
    (timestampStep now bc f i pc).frontend = some f := by
  unfold timestampStep
  split
  · split <;> rfl
  · rfl

theorem searchedStep_frontend (g : GetSet) (i : InstanceId) (set : BackendSet)
    (answer : Option SearchAnswer) :
    (searchedStep cfg now bc f g i set answer).frontend = some f := by
  cases answer with
  | none => rfl
  | some answer =>
    simp only [searchedStep]
    split
    · rfl
    · split
      · rfl
      · split <;> rfl

theorem returnedStep_keeps {g : GetSet} {o : Outcome} {a : After}
    (h : returnedStep now bc f g o = some a) : Keeps f a := by
  unfold returnedStep at h
  split at h
  · split at h
    · cases h
      exact keeps_self rfl
    · cases h
      exact ⟨by rintro f' ⟨⟩; exact ⟨rfl, rfl⟩, nofun⟩
    · cases h
  · split at h
    · split at h
      · cases h
        exact keeps_self rfl
      · cases h
        exact keeps_self rfl
    · cases h
  · cases h

theorem next_keeps (next : Next) : Keeps f (next.after bc f) := by
  cases next with
  | closed => exact ⟨nofun, fun _ => rfl⟩
  | _ => exact keeps_self rfl

theorem initReplyStep_keeps (req : InitRequest) : Keeps f (initReplyStep cfg bc f req) := by
  unfold initReplyStep
  split
  · simp only
    split
    · exact keeps_self rfl
    · exact ⟨nofun, fun _ => rfl⟩
  · exact ⟨nofun, fun _ => rfl⟩

theorem threadStep_keeps {pc : Pc} {o : Outcome} {a : After}
    (h : threadStep cfg now fresh client bc f pc o = some a) : Keeps f a := by
  unfold threadStep at h
  split at h
  case h_1 => split at h <;> cases h <;> exact keeps_self rfl
  case h_3 =>
    cases h
    exact keeps_self (createdStep_frontend _ _)
  case h_4 req =>
    cases h
    exact initReplyStep_keeps req
  case h_5 =>
    cases h
    exact keeps_self (getSetStep_frontend _)
  case h_6 =>
    cases h
    exact keeps_self (getSetStep_frontend _)
  case h_7 => split at h <;> cases h <;> exact keeps_self rfl
  case h_8 =>
    cases h
    exact keeps_self (timestampStep_frontend _ _)
  case h_10 i set g answer =>
    cases h
    exact keeps_self (searchedStep_frontend g i set answer)
  case h_11 => exact returnedStep_keeps h
  case h_12 =>
    cases h
    exact keeps_self (timestampStep_frontend _ _)
  case h_17 => split at h <;> cases h <;> exact keeps_self rfl
  case h_18 =>
    cases h
    exact keeps_self (timestampStep_frontend _ _)
  case h_21 i next =>
    cases h
    exact next_keeps next
  case h_23 i next =>
    cases h
    exact next_keeps next
  case h_24 next =>
    cases h
    exact next_keeps next
  case h_25 => cases h
  -- the other sections go on with the same frontend
  all_goals
    cases h
    exact keeps_self rfl

end

/-- What `stepThread` has done. -/
structure ThreadStepped (cfg : Config) (s s' : St) (client : Client) (o : Outcome) (f : Frontend)
    (a : After) : Prop where
  frontend : (s.threads client).frontend = some f
  step : threadStep cfg s.clock s.fresh client (s.classes f.backendClass) f (s.threads client).pc o
    = some a
  state : s' = { s.setThread client
      ⟨a.frontend, a.pc, a.response.or (s.threads client).response⟩ with
    classes := Function.update s.classes f.backendClass a.backendClass
    fresh := s.fresh + 1 }

theorem stepThread_spec {o : Outcome} (h : stepThread cfg s client o = some s') :
    ∃ f a, ThreadStepped cfg s s' client o f a := by
  obtain ⟨f, hf, h⟩ := Option.bind_eq_some_iff.mp h
  obtain ⟨a, ha, rfl⟩ := Option.map_eq_some_iff.mp h
  exact ⟨f, a, hf, ha, rfl⟩

theorem stepThread_of_step (cfg : Config) {o : Outcome} {f : Frontend} {a : After}
    (hf : (s.threads client).frontend = some f)
    (ha : threadStep cfg s.clock s.fresh client (s.classes f.backendClass) f (s.threads client).pc o
      = some a) :
    ∃ s', stepThread cfg s client o = some s' ∧ ThreadStepped cfg s s' client o f a := by
  refine ⟨_, ?_, hf, ha, rfl⟩
  simp only [stepThread, hf, Option.bind_some, ha, Option.map_some]

/-! ## Every class is known under its key -/

/-- Classes in the map and those of the frontends have been made, and carry the key. -/
structure Linked (s : St) : Prop where
  map : ∀ k c, s.backendMap.lookup k = some c → c < s.made ∧ (s.classes c).key = k
  frontend : ∀ client f, (s.threads client).frontend = some f →
    f.backendClass < s.made ∧ (s.classes f.backendClass).key = f.key

theorem Linked.of_init (h : init s) : Linked s where
  map k c hk := by
    rw [h.1] at hk
    simp at hk
  frontend client f hf := by
    rw [h.2.2.1 client] at hf
    cases hf

/-- No class loses its key, and clients keep theirs or get one that is in the map. -/
theorem Linked.step (h : Linked s) (hmade : s.made ≤ s'.made)
    (hkey : ∀ c < s.made, (s'.classes c).key = (s.classes c).key)
    (hmap : ∀ k c, s'.backendMap.lookup k = some c →
      s.backendMap.lookup k = some c ∨ (c < s'.made ∧ (s'.classes c).key = k))
    (hfrontend : ∀ client f', (s'.threads client).frontend = some f' →
      (∃ f, (s.threads client).frontend = some f ∧ SameClass f f') ∨
        s'.backendMap.lookup f'.key = some f'.backendClass) : Linked s' := by
  have map : ∀ k c, s'.backendMap.lookup k = some c →
      c < s'.made ∧ (s'.classes c).key = k := by
    intro k c hk
    rcases hmap k c hk with hold | hnew
    · obtain ⟨hc, hck⟩ := h.map k c hold
      exact ⟨by omega, (hkey c hc).trans hck⟩
    · exact hnew
  refine ⟨map, fun client f' hf' => ?_⟩
  rcases hfrontend client f' hf' with ⟨f, hf, hclass, hfkey⟩ | hk
  · obtain ⟨hc, hck⟩ := h.frontend client f hf
    rw [hclass, hfkey, hkey _ hc]
    exact ⟨by omega, hck⟩
  · exact map _ _ hk

theorem frontend_refl (client : Client) (f' : Frontend)
    (hf' : (s.threads client).frontend = some f') :
    ∃ f, (s.threads client).frontend = some f ∧ SameClass f f' := ⟨f', hf', rfl, rfl⟩

theorem Started.frontends {th : Thread} (h : Started s s' client th) (client' : Client)
    (f' : Frontend) (hf' : (s'.threads client').frontend = some f') :
    (∃ f, (s.threads client').frontend = some f ∧ SameClass f f') ∨
      s'.backendMap.lookup f'.key = some f'.backendClass := by
  rw [h.threads] at hf'
  by_cases heq : client' = client
  · subst heq
    rw [Function.update_self] at hf'
    exact h.frontend f' hf'
  · rw [Function.update_of_ne heq] at hf'
    exact .inl (frontend_refl client' f' hf')

theorem expireInstances_key (bc : BackendClass) (now clock : Time) :
    (bc.expireInstances cfg now clock).key = bc.key := rfl

theorem update_key {c d : Nat} {bc : BackendClass} (h : bc.key = (s.classes d).key) :
    (Function.update s.classes d bc c).key = (s.classes c).key := by
  by_cases heq : c = d
  · subst heq
    rw [Function.update_self, h]
  · rw [Function.update_of_ne heq]

/-- What the worker leaves as it is. -/
structure WorkerFrame (s s' : St) : Prop where
  made : s'.made = s.made
  threads : s'.threads = s.threads
  clock : s'.clock = s.clock

theorem stepWorker_frame (h : stepWorker cfg s = some s') : WorkerFrame s s' := by
  unfold stepWorker at h
  split at h
  · cases h
    exact ⟨rfl, rfl, rfl⟩
  · split at h <;> cases h <;> exact ⟨rfl, rfl, rfl⟩
  · obtain ⟨e, -, rfl⟩ := Option.map_eq_some_iff.mp h
    exact ⟨rfl, rfl, rfl⟩
  · obtain ⟨e, -, rfl⟩ := Option.map_eq_some_iff.mp h
    exact ⟨rfl, rfl, rfl⟩

theorem linked_worker (hl : Linked s) (h : stepWorker cfg s = some s') : Linked s' := by
  unfold stepWorker at h
  split at h
  case h_1 =>
    cases h
    exact ⟨hl.map, hl.frontend⟩
  case h_2 =>
    split at h <;> cases h <;> exact ⟨hl.map, hl.frontend⟩
  case h_3 n now _ =>
    obtain ⟨e, he, rfl⟩ := Option.map_eq_some_iff.mp h
    exact hl.step (Nat.le_refl _) (fun c _ => update_key (expireInstances_key _ _ _))
      (fun k c hk => .inl hk) fun client f' hf' => .inl (frontend_refl client f' hf')
  case h_4 n _ =>
    obtain ⟨e, he, rfl⟩ := Option.map_eq_some_iff.mp h
    exact hl.step (Nat.le_refl _) (fun c _ => rfl) (fun k c hk => .inl (Table.lookup_of_erase hk))
      fun client f' hf' => .inl (frontend_refl client f' hf')

theorem linked_thread {o : Outcome} (hl : Linked s) (h : stepThread cfg s client o = some s') :
    Linked s' := by
  obtain ⟨f, a, hf, ha, rfl⟩ := stepThread_spec h
  refine hl.step (Nat.le_refl _) (fun c _ => update_key (threadStep_moves ha).key)
    (fun k c hk => .inl hk) fun client' f' hf' => .inl ?_
  simp only [St.setThread] at hf'
  by_cases heq : client' = client
  · subst heq
    rw [Function.update_self] at hf'
    exact ⟨f, hf, (threadStep_keeps ha).some f' hf'⟩
  · rw [Function.update_of_ne heq] at hf'
    exact frontend_refl client' f' hf'

theorem linked_request (hl : Linked s) (h : Requested s s' client) : Linked s' := by
  cases h with
  | ignored heq => exact heq ▸ hl
  | started th heq hst =>
    subst heq
    exact hl.step (Nat.le_refl _) (fun c _ => rfl) (fun k c hk => .inl hk) hst.frontends
  | newClass th key hst _ _ hmap hclasses hmade =>
    refine hl.step (by omega) (fun c hc => ?_) (fun k c hk => ?_) hst.frontends
    · rw [hclasses, Function.update_of_ne (by omega)]
    · rw [hmap] at hk
      by_cases heq : k = key
      · subst heq
        rw [AList.lookup_insert] at hk
        cases hk
        refine .inr ⟨by omega, ?_⟩
        rw [hclasses, Function.update_self]
        rfl
      · rw [AList.lookup_insert_ne heq] at hk
        exact .inl hk

theorem linked_step {e : Label} (hl : Linked s) (h : step cfg s e = some s') : Linked s' := by
  cases e with
  | clock now =>
    cases h
    exact ⟨hl.map, hl.frontend⟩
  | request client r => exact linked_request hl (startRequest_requested h)
  | thread client o => exact linked_thread hl h
  | worker => exact linked_worker hl h

theorem linked_of_reach {ok : St → Label → Prop} (h : Reach (step cfg) init ok s) : Linked s :=
  h.invariant (fun _ => Linked.of_init) fun _ _ _ hl _ hs => linked_step hl hs

/-! ## The view of one class -/

/-- What a step of the filter is for the class `c`. -/
inductive StepAt (cfg : Config) (s : St) (e : Label) (s' : St) (c : Nat) : Prop where
  | rest : Same (s.classes c) (s'.classes c) → (s'.classAt c).views = (s.classAt c).views →
      s.fresh ≤ s'.fresh → StepAt cfg s e s' c
  | thread (client : Client) (o : Outcome) (f : Frontend) (a : After) :
      e = .thread client o → ThreadStepped cfg s s' client o f a → f.backendClass = c →
      s'.classAt c = ⟨s.clock, s.fresh + 1, a.backendClass,
        Function.update (s.classAt c).views client a.pc.view⟩ → StepAt cfg s e s' c
  | expire (n : Nat) (now : Time) (k : InitKey) : e = .worker → s.worker = .timed n now →
      s.backendMap.entries[n]? = some ⟨k, c⟩ →
      s'.classAt c = { s.classAt c with
        backendClass := (s.classes c).expireInstances cfg now s.clock } → StepAt cfg s e s' c

theorem StepAt.classStep {e : Label} {c : Nat} (h : StepAt cfg s e s' c) :
    ClassStep cfg (s.classAt c) (s'.classAt c) := by
  cases h with
  | rest hsame hviews hfresh => exact .rest hsame hviews hfresh
  | thread client o f a _ hts hc heq =>
    rw [heq]
    have hview : (s.classAt c).views client = (s.threads client).pc.view := by
      rw [← hc]
      exact viewOf_own hts.frontend
    have hmove := threadStep_moves hts.step
    rw [← hview, hc] at hmove
    exact .move client hmove
  | expire n now k _ _ _ heq =>
    rw [heq]
    exact .expire now

theorem Started.views {th : Thread} (h : Started s s' client th) (c : Nat) :
    (s'.classAt c).views = (s.classAt c).views := by
  funext client'
  simp only [St.classAt, h.threads]
  by_cases heq : client' = client
  · subst heq
    rw [Function.update_self, viewOf_away h.starts.view, viewOf_away (by rw [h.idle]; rfl)]
  · rw [Function.update_of_ne heq]

theorem stepAt_thread {o : Outcome} {f : Frontend} {a : After}
    (h : ThreadStepped cfg s s' client o f a) (c : Nat) : StepAt cfg s (.thread client o) s' c := by
  have hclass : ∀ f', a.frontend = some f' → f'.backendClass = f.backendClass :=
    fun f' hf' => ((threadStep_keeps h.step).some f' hf').1
  by_cases hc : f.backendClass = c
  · refine .thread client o f a rfl h hc ?_
    rw [h.state]
    simp only [St.classAt, St.setThread, hc, Function.update_self, ClassState.mk.injEq, true_and]
    funext client'
    by_cases heq : client' = client
    · subst heq
      rw [Function.update_self, Function.update_self]
      cases hf : a.frontend with
      | some f' => rw [← hc, ← hclass f' hf, viewOf_own rfl]
      | none =>
        rw [(threadStep_keeps h.step).none hf]
        rfl
    · rw [Function.update_of_ne heq, Function.update_of_ne heq]
  · have hne : ¬ c = f.backendClass := fun heq => hc heq.symm
    refine .rest ?_ ?_ ?_
    · rw [h.state]
      simp only [Function.update_of_ne hne]
      exact .refl _
    · rw [h.state]
      funext client'
      simp only [St.classAt, St.setThread]
      by_cases heq : client' = client
      · subst heq
        rw [Function.update_self, viewOf_other h.frontend hc]
        cases hf : a.frontend with
        | some f' => exact viewOf_other rfl (by rw [hclass f' hf]; exact hc)
        | none => rfl
      · rw [Function.update_of_ne heq]
    · rw [h.state]
      exact Nat.le_succ _

theorem stepAt_worker (h : stepWorker cfg s = some s') (c : Nat) :
    StepAt cfg s .worker s' c := by
  unfold stepWorker at h
  split at h
  case h_1 =>
    cases h
    exact .rest (.refl _) rfl (Nat.le_refl _)
  case h_2 =>
    split at h <;> cases h <;> exact .rest (.refl _) rfl (Nat.le_refl _)
  case h_3 n now hworker =>
    obtain ⟨⟨k, d⟩, he, rfl⟩ := Option.map_eq_some_iff.mp h
    by_cases hd : d = c
    · subst hd
      refine .expire n now k rfl hworker he ?_
      simp [St.classAt]
    · refine .rest ?_ rfl (Nat.le_refl _)
      simp only [Function.update_of_ne fun heq => hd heq.symm]
      exact .refl _
  case h_4 =>
    obtain ⟨e, he, rfl⟩ := Option.map_eq_some_iff.mp h
    exact .rest (.refl _) rfl (Nat.le_refl _)

/-- Every class goes on by a step of its own, or has just been made. -/
theorem stepAt {e : Label} (hl : Linked s) (h : step cfg s e = some s') {c : Nat}
    (hc : c < s'.made) :
    (c < s.made ∧ StepAt cfg s e s' c) ∨ (s'.classAt c).New := by
  cases e with
  | clock now =>
    cases h
    exact .inl ⟨hc, .rest (.refl _) rfl (Nat.le_refl _)⟩
  | request client r =>
    cases startRequest_requested h with
    | ignored heq =>
      subst heq
      exact .inl ⟨hc, .rest (.refl _) rfl (Nat.le_refl _)⟩
    | started th heq hst =>
      have hviews := hst.views c
      subst heq
      exact .inl ⟨hc, .rest (.refl _) hviews (Nat.le_refl _)⟩
    | newClass th key hst _ _ _ hclasses hmade =>
      by_cases hold : c = s.made
      · refine .inr ⟨⟨key, ?_⟩, fun client' => ?_⟩
        · simp only [St.classAt, hclasses, hold, Function.update_self]
        · rw [hst.views c]
          cases hf : (s.threads client').frontend with
          | none => simp [St.classAt, Thread.viewOf, hf]
          | some f =>
            have hlt := (hl.frontend client' f hf).1
            exact viewOf_other hf (by omega)
      · refine .inl ⟨by omega, .rest ?_ (hst.views c) (Nat.le_of_eq hst.fresh.symm)⟩
        rw [hclasses, Function.update_of_ne hold]
        exact .refl _
  | thread client o =>
    obtain ⟨f, a, hts⟩ := stepThread_spec h
    refine .inl ⟨?_, stepAt_thread hts c⟩
    rw [hts.state] at hc
    exact hc
  | worker =>
    rw [(stepWorker_frame h).made] at hc
    exact .inl ⟨hc, stepAt_worker h c⟩

/-- What holds of new classes and survives the steps of the run holds of every class. -/
theorem everyClass {ok : St → Label → Prop} {I : ClassState → Prop}
    (hnew : ∀ a : ClassState, a.New → I a)
    (hstep : ∀ s e s' c, Reach (step cfg) init ok s → c < s.made → ok s e →
      step cfg s e = some s' → StepAt cfg s e s' c → I (s.classAt c) → I (s'.classAt c))
    (h : Reach (step cfg) init ok s) : ∀ c < s.made, I (s.classAt c) := by
  induction h with
  | start hs =>
    intro c hc
    rw [hs.2.1] at hc
    exact absurd hc (Nat.not_lt_zero c)
  | next hr hok hs ih =>
    intro c hc
    rcases stepAt (linked_of_reach hr) hs hc with ⟨hlt, hat⟩ | hmade
    · exact hstep _ _ _ c hr hlt hok hs hat (ih c hlt)
    · exact hnew _ hmade

/-- An invariant of the steps of a class. -/
theorem classInvariant {ok : St → Label → Prop} {I : ClassState → Prop}
    (hnew : ∀ a : ClassState, a.New → I a)
    (hstep : ∀ a a', I a → ClassStep cfg a a' → I a')
    (h : Reach (step cfg) init ok s) : ∀ c < s.made, I (s.classAt c) :=
  everyClass hnew (fun _ _ _ _ _ _ _ _ hat hI => hstep _ _ hI hat.classStep) h

end SessionShared
end Metaproxy
