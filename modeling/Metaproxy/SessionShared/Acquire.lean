import Metaproxy.SessionShared.TargetSets

/-!
# SessionShared.Acquire

What `get_set` returns. A set comes with an instance that is in use for this request and has the
set; no set comes with a response and no instance (`AllOrNothing`). This holds of all runs in which
no second attempt after a restart fails to get an instance (`RestartServed`), and only of these
(`acquisition_all_or_nothing`): the set of the first attempt is still in `found_set` then.
-/

namespace Metaproxy
namespace SessionShared

open Lib BackendClass

/-! ## When a second attempt fails -/

/-- No instance has a similar set, none can be overridden, and no session may be added. -/
def noneLeft (cfg : Config) (now : Time) (bc : BackendClass) (g : GetSet) : Bool :=
  (if cfg.optimizeSearch then
    firstWith (similar g.databases g.query g.request.wantedSearchInfo) bc.backendList
  else none).isNone &&
    (overrideSet cfg now bc g.databases g.outOfSessions).isNone && g.outOfSessions

/-- An attempt after a restart ends here, without an instance. -/
def failsAgain (cfg : Config) (now : Time) (bc : BackendClass) : Pc → Outcome → Bool
  | .getSet g, _ =>
    g.restarted &&
      noneLeft cfg now bc { g with outOfSessions := bc.backendList.length ≥ cfg.sessionMax }
  | .wait g, _ => g.restarted && noneLeft cfg now bc g
  | .initMove (.getSet g), .initAnswered o => g.restarted && !o.accepted
  | _, _ => false

def RestartServed (cfg : Config) (s : St) : Label → Prop
  | .thread client o => ∀ f ∈ (s.threads client).frontend,
      failsAgain cfg s.clock (s.classes f.backendClass) (s.threads client).pc o = false
  | _ => True

instance (cfg : Config) (s : St) : (e : Label) → Decidable (RestartServed cfg s e)
  | .thread _ _ => inferInstanceAs (Decidable (∀ f ∈ _, _))
  | .clock _ | .request _ _ | .worker => isTrue trivial

/-! ## What a thread carries -/

/-- No instance yet; a set only from the attempt before a restart. -/
structure GetSet.Unserved (g : GetSet) : Prop where
  foundBackend : g.foundBackend = none
  foundSet : g.foundSet.isSome = true ↔ g.restarted = true

def Next.Ready (response : Option Response) : Next → Prop
  | .restart g => g.Unserved
  | .searchError _ => response.isSome = true
  | .done | .closed | .initReply _ => True

/-- The results of `get_set` fit together. -/
structure GetSet.Settled (g : GetSet) (response : Option Response) : Prop where
  foundBackend : g.foundSet.isSome = true → g.foundBackend.isSome = true
  response : g.foundSet = none → response.isSome = true

/-- The thread has what its next steps need. -/
def Pc.Ready (response : Option Response) : Pc → Prop
  | .getSet g | .wait g | .create (.getSet g) | .initMove (.getSet g) => g.Unserved
  | .returned g => g.Settled response
  | .presentTimestamp b _ _ => b.isSome = true
  | .release b next | .remove b next => b.isSome = true ∧ next.Ready response
  | .crashed => False
  | _ => True

theorem Pc.Starts.ready {pc : Pc} {response : Option Response} (h : pc.Starts) :
    pc.Ready response := by
  cases pc with
  | getSet g =>
    rw [show g = _ from h]
    exact ⟨rfl, by simp [GetSet.call]⟩
  | idle => trivial
  | init req => trivial
  | scan => trivial
  | _ => cases h

section

variable {cfg : Config} {now : Time} {fresh : Nat} {client : Client} {bc : BackendClass}
  {f : Frontend} {g : GetSet} {response : Option Response}

theorem GetSet.Unserved.foundSet_none (h : g.Unserved) (hr : g.restarted = false) :
    g.foundSet = none := by
  cases hs : g.foundSet with
  | none => rfl
  | some set =>
    have hrestarted := h.foundSet.mp (by rw [hs]; rfl)
    rw [hr] at hrestarted
    cases hrestarted

/-- A first attempt that gets no instance leaves no set. -/
theorem Unserved.settled_none (h : g.Unserved) (hr : g.restarted = false) {res : Response} :
    ({ g with foundBackend := none } : GetSet).Settled ((some res).or response) where
  foundBackend hs := by
    rw [show ({ g with foundBackend := none } : GetSet).foundSet = g.foundSet from rfl,
      h.foundSet_none hr] at hs
    cases hs
  response _ := rfl

theorem overrideStep_ready (h : g.Unserved)
    (hok : (g.restarted && ((overrideSet cfg now bc g.databases g.outOfSessions).isNone &&
      g.outOfSessions)) = false) :
    (overrideStep cfg now client bc f g).pc.Ready
      ((overrideStep cfg now client bc f g).response.or response) := by
  unfold overrideStep
  split
  · trivial
  · trivial
  · rename_i hnone
    split
    · rename_i hout
      rw [hnone, hout] at hok
      exact Unserved.settled_none h (by simpa using hok)
    · exact h

theorem getSetStep_ready (h : g.Unserved) (hok : (g.restarted && noneLeft cfg now bc g) = false) :
    (getSetStep cfg now client bc f g).pc.Ready
      ((getSetStep cfg now client bc f g).response.or response) := by
  unfold getSetStep
  split
  · split
    · exact h
    · exact ⟨fun _ => rfl, fun hw => by cases hw⟩
  · rename_i hnone
    unfold noneLeft at hok
    rw [hnone, Option.isNone_none, Bool.true_and] at hok
    exact overrideStep_ready h hok

theorem createdStep_ready {c : Creator} {o : InitOutcome}
    (h : (Pc.initMove c).Ready response)
    (hok : failsAgain cfg now bc (.initMove c) (.initAnswered o) = false) :
    (createdStep now fresh client bc f c o).pc.Ready
      ((createdStep now fresh client bc f c o).response.or response) := by
  unfold createdStep
  simp only
  split
  · cases c with
    | init req => exact ⟨rfl, trivial⟩
    | getSet g => trivial
    | scan => trivial
  · rename_i haccepted
    cases c with
    | init req => trivial
    | getSet g =>
      have hr : g.restarted = false := by simpa [failsAgain, haccepted] using hok
      exact Unserved.settled_none h hr
    | scan => trivial

theorem timestampStep_ready {i : InstanceId} {pc : Pc}
    (hheld : ∃ b, bc.find i = some b ∧ b.inUse = true) (h : pc.Ready response) :
    (timestampStep now bc f i pc).pc.Ready
      ((timestampStep now bc f i pc).response.or response) := by
  obtain ⟨b, hb, huse⟩ := hheld
  unfold timestampStep
  simp only [hb, huse, if_pos]
  exact h

theorem searchedStep_ready (i : InstanceId) (set : BackendSet) (answer : Option SearchAnswer) :
    (searchedStep cfg now bc f g i set answer).pc.Ready
      ((searchedStep cfg now bc f g i set answer).response.or response) := by
  cases answer with
  | none => exact ⟨rfl, rfl⟩
  | some answer =>
    simp only [searchedStep]
    split
    · exact ⟨rfl, rfl, by simp⟩
    · split
      · exact ⟨rfl, rfl⟩
      · split
        · exact ⟨rfl, rfl, by simp⟩
        · exact ⟨fun _ => rfl, fun hw => by cases hw⟩

theorem returnedStep_ready {o : Outcome} {a : After} (h : g.Settled response)
    (hs : returnedStep now bc f g o = some a) : a.pc.Ready (a.response.or response) := by
  unfold returnedStep at hs
  split at hs
  · split at hs
    · cases hs
      trivial
    · rename_i set req hset hreq
      cases hs
      exact ⟨h.foundBackend (by rw [hset]; rfl), trivial⟩
    · cases hs
  · split at hs
    · rename_i set req hset hreq
      have hb := h.foundBackend (by rw [hset]; rfl)
      split at hs
      · cases hs
        exact ⟨hb, trivial⟩
      · cases hs
        exact hb
    · cases hs
  · cases hs

theorem next_ready (bc : BackendClass) (f : Frontend) {next : Next} (h : next.Ready response) :
    (next.after bc f).pc.Ready ((next.after bc f).response.or response) := by
  cases next with
  | restart g => exact h
  | searchError g => exact ⟨fun hw => (by cases hw), fun _ => h⟩
  | _ => trivial

theorem initReplyStep_ready (req : InitRequest) :
    (initReplyStep cfg bc f req).pc.Ready ((initReplyStep cfg bc f req).response.or response) := by
  unfold initReplyStep
  split <;> trivial

/-- A step keeps the thread ready unless a second attempt fails; the instance that the thread holds
is in use. -/
theorem threadStep_ready {pc : Pc} {o : Outcome} {a : After}
    (hheld : ∀ i, pc.view.held = some i → ∃ b, bc.find i = some b ∧ b.inUse = true)
    (h : pc.Ready response) (hok : failsAgain cfg now bc pc o = false)
    (hs : threadStep cfg now fresh client bc f pc o = some a) :
    a.pc.Ready (a.response.or response) := by
  unfold threadStep at hs
  split at hs
  case h_1 => split at hs <;> cases hs <;> trivial
  case h_2 c =>
    cases hs
    cases c <;> exact h
  case h_3 =>
    cases hs
    exact createdStep_ready h hok
  case h_4 req =>
    cases hs
    exact initReplyStep_ready req
  case h_5 g =>
    cases hs
    exact getSetStep_ready (g := { g with outOfSessions := _ }) ⟨h.foundBackend, h.foundSet⟩ hok
  case h_6 g =>
    cases hs
    exact getSetStep_ready h hok
  case h_7 i g =>
    obtain ⟨b, hb, -⟩ := hheld i rfl
    split at hs
    · cases hs
      trivial
    · rename_i hnone
      rw [hb] at hnone
      cases hnone
  case h_8 i g =>
    cases hs
    exact timestampStep_ready (hheld i rfl) trivial
  case h_9 =>
    cases hs
    trivial
  case h_10 i set g answer =>
    cases hs
    exact searchedStep_ready i set answer
  case h_11 => exact returnedStep_ready h hs
  case h_12 i set g =>
    cases hs
    exact timestampStep_ready (hheld i rfl) trivial
  case h_13 => cases h
  case h_14 =>
    cases hs
    trivial
  case h_15 =>
    cases hs
    exact ⟨rfl, trivial⟩
  case h_16 =>
    cases hs
    exact ⟨rfl, trivial⟩
  case h_17 => split at hs <;> cases hs <;> trivial
  case h_18 i =>
    cases hs
    exact timestampStep_ready (hheld i rfl) trivial
  case h_19 =>
    cases hs
    exact ⟨rfl, trivial⟩
  case h_20 =>
    cases hs
    exact ⟨rfl, trivial⟩
  case h_21 i next =>
    cases hs
    exact next_ready _ f h.2
  case h_22 => cases h.1
  case h_23 i next =>
    cases hs
    exact next_ready _ f h.2
  case h_24 => cases h.1
  case h_25 => cases hs

/-- A second attempt that fails returns the set of the first one, without an instance. -/
theorem failsAgain_returned {pc : Pc} {o : Outcome} {a : After} (h : pc.Ready response)
    (hfail : failsAgain cfg now bc pc o = true)
    (hs : threadStep cfg now fresh client bc f pc o = some a) :
    ∃ g, a.pc = .returned g ∧ g.foundSet.isSome = true ∧ g.foundBackend = none := by
  have attempt : ∀ g : GetSet, g.Unserved → (g.restarted && noneLeft cfg now bc g) = true →
      ∃ g', (getSetStep cfg now client bc f g).pc = .returned g' ∧ g'.foundSet.isSome = true ∧
        g'.foundBackend = none := by
    intro g hg hnone
    obtain ⟨hr, hnone⟩ := Bool.and_eq_true_iff.mp hnone
    unfold noneLeft at hnone
    obtain ⟨hnone, hout⟩ := Bool.and_eq_true_iff.mp hnone
    obtain ⟨hsim, hover⟩ := Bool.and_eq_true_iff.mp hnone
    refine ⟨{ g with foundBackend := none }, ?_, hg.foundSet.mpr hr, rfl⟩
    unfold getSetStep overrideStep
    rw [Option.isNone_iff_eq_none.mp hsim, Option.isNone_iff_eq_none.mp hover]
    simp only [hout, if_pos]
  unfold failsAgain at hfail
  split at hfail
  case h_1 g =>
    cases o with
    | go =>
      cases hs
      exact attempt _ ⟨h.foundBackend, h.foundSet⟩ hfail
    | _ => cases hs
  case h_2 g =>
    cases o with
    | go =>
      cases hs
      exact attempt g h hfail
    | _ => cases hs
  case h_3 g o =>
    cases hs
    obtain ⟨hr, hrefused⟩ := Bool.and_eq_true_iff.mp hfail
    have hno : o.accepted = false := by simpa using hrefused
    refine ⟨{ g with foundBackend := none }, ?_, h.foundSet.mpr hr, rfl⟩
    simp [createdStep, hno]
  case h_4 => cases hfail

end

/-! ## All runs -/

/-- With a set, `get_set` has returned the instance that has it, in use for this request alone. -/
def GotSet (s : St) (client : Client) (f : Frontend) (g : GetSet) : Prop :=
  ∃ i set b, g.foundBackend = some i ∧ g.foundSet = some set ∧
    (s.classes f.backendClass).find i = some b ∧ b.inUse = true ∧ set ∈ b.sets ∧
    ∀ client', (s.classes f.backendClass).taken client' i =
      (s.classes f.backendClass).given client' i + if client' = client then 1 else 0

/-- Without a set, there is a response, and the client has given back all it had taken. -/
def GotNothing (s : St) (client : Client) (f : Frontend) (g : GetSet) : Prop :=
  g.foundSet = none ∧ (s.threads client).response.isSome = true ∧
    ∀ i, (s.classes f.backendClass).taken client i = (s.classes f.backendClass).given client i

structure AllOrNothing (s : St) : Prop where
  returned : ∀ client f g, (s.threads client).frontend = some f →
    (s.threads client).pc = .returned g → GotSet s client f g ∨ GotNothing s client f g
  /-- No null pointer is used, and no assertion fails. -/
  notCrashed : ∀ client, (s.threads client).pc ≠ .crashed
  /-- Between two requests a client has given back all it had taken. -/
  settled : ∀ client, (s.threads client).pc = .idle → ∀ c < s.made, ∀ i,
    (s.classes c).taken client i = (s.classes c).given client i

def AllReady (s : St) : Prop :=
  ∀ client, (s.threads client).pc.Ready (s.threads client).response

variable {cfg : Config} {s s' : St} {e : Label}

theorem ThreadStepped.thread {client : Client} {o : Outcome} {f : Frontend} {a : After}
    (h : ThreadStepped cfg s s' client o f a) :
    s'.threads client = ⟨a.frontend, a.pc, a.response.or (s.threads client).response⟩ := by
  rw [h.state]
  simp [St.setThread]

theorem ThreadStepped.others {client : Client} {o : Outcome} {f : Frontend} {a : After}
    (h : ThreadStepped cfg s s' client o f a) {client' : Client} (hne : client' ≠ client) :
    s'.threads client' = s.threads client' := by
  rw [h.state]
  simp only [St.setThread, Function.update_of_ne hne]

theorem heldInUse (ho : ∀ c < s.made, Owned (s.classAt c)) (hl : Linked s) {client : Client}
    {f : Frontend} (hf : (s.threads client).frontend = some f) (i : InstanceId)
    (hi : (s.threads client).pc.view.held = some i) :
    ∃ b, (s.classes f.backendClass).find i = some b ∧ b.inUse = true := by
  have hheld : ((s.classAt f.backendClass).views client).held = some i := by
    rw [← hi]
    exact congrArg View.held (viewOf_own hf)
  exact (ho _ (hl.frontend client f hf).1).find_of_held hheld

theorem allReady_thread {client : Client} {o : Outcome} (h : AllReady s)
    (ho : ∀ c < s.made, Owned (s.classAt c)) (hl : Linked s)
    (hok : RestartServed cfg s (.thread client o)) (hs : stepThread cfg s client o = some s') :
    AllReady s' := by
  obtain ⟨f, a, hts⟩ := stepThread_spec hs
  intro client'
  by_cases hc : client' = client
  · subst hc
    rw [hts.thread]
    exact threadStep_ready (heldInUse ho hl hts.frontend) (h client') (hok f hts.frontend) hts.step
  · rw [hts.others hc]
    exact h client'

theorem allReady_request {client : Client} (h : AllReady s) (hs : Requested s s' client) :
    AllReady s' := by
  have started {th : Thread} (hst : Started s s' client th) : AllReady s' := by
    intro client'
    rw [hst.threads]
    by_cases hc : client' = client
    · subst hc
      rw [Function.update_self]
      exact hst.starts.ready
    · rw [Function.update_of_ne hc]
      exact h client'
  cases hs with
  | ignored heq => exact heq ▸ h
  | started th _ hst => exact started hst
  | newClass th key hst _ _ _ _ _ => exact started hst

theorem allReady_step (h : AllReady s) (ho : ∀ c < s.made, Owned (s.classAt c)) (hl : Linked s)
    (hok : RestartServed cfg s e) (hs : step cfg s e = some s') : AllReady s' := by
  cases e with
  | clock now =>
    cases hs
    exact h
  | request client r => exact allReady_request h (startRequest_requested hs)
  | thread client o => exact allReady_thread h ho hl hok hs
  | worker =>
    intro client
    rw [(stepWorker_frame hs).threads]
    exact h client

theorem allReady_of_reach (h : Reach (step cfg) init (RestartServed cfg) s) : AllReady s := by
  refine h.invariant_with (J := fun s => (∀ c < s.made, Owned (s.classAt c)) ∧ Linked s)
    (fun s hr => ⟨owned_of_reach hr, linked_of_reach hr⟩) (fun s hs client => ?_)
    fun s e s' hJ hI hok hs => allReady_step hI hJ.1 hJ.2 hok hs
  rw [hs.2.2.1 client]
  trivial

/-- The balance of a client's loans in a class, by the instance it holds. -/
theorem Owned.balance {c : Nat} (h : Owned (s.classAt c)) (client : Client) (i : InstanceId) :
    (s.classes c).taken client i = (s.classes c).given client i +
      if ((s.threads client).viewOf c).held = some i then 1 else 0 := h.balanced client i

theorem gotSet_of_serving {client : Client} {f : Frontend} {g : GetSet} {i : InstanceId}
    {set : BackendSet} (ho : Owned (s.classAt f.backendClass))
    (ht : TargetSets cfg (s.classAt f.backendClass))
    (hf : (s.threads client).frontend = some f) (hpc : (s.threads client).pc = .returned g)
    (hi : g.foundBackend = some i) (hset : g.foundSet = some set) : GotSet s client f g := by
  have hview : (s.threads client).viewOf f.backendClass =
      .serving i set g.databases g.query := by
    rw [viewOf_own hf, hpc]
    simp [Pc.view, GetSet.serving, hi, hset]
  have hheld : ((s.classAt f.backendClass).views client).held = some i := by
    rw [show (s.classAt f.backendClass).views client = _ from hview]
    rfl
  obtain ⟨b, hb, huse⟩ := ho.find_of_held hheld
  have hknown := ht.views client i b hheld hb
  rw [show (s.classAt f.backendClass).views client = _ from hview] at hknown
  refine ⟨i, set, b, hi, hset, hb, huse, hknown.1, fun client' => ?_⟩
  have hothers := ho.others_of_held hheld
  rw [ho.balance client' i]
  by_cases hc : client' = client
  · subst hc
    rw [hview, if_pos rfl, View.held, if_pos rfl]
  · rw [if_neg hc, if_neg]
    exact hothers client' hc

theorem allOrNothing_of_ready (h : AllReady s) (hl : Linked s)
    (ht : ∀ c < s.made, Owned (s.classAt c) ∧ TargetSets cfg (s.classAt c)) : AllOrNothing s where
  returned client f g hf hpc := by
    obtain ⟨ho, htarget⟩ := ht _ (hl.frontend client f hf).1
    have hready := h client
    rw [hpc] at hready
    cases hset : g.foundSet with
    | none =>
      refine .inr ⟨hset, hready.response hset, fun i => ?_⟩
      have haway : (s.threads client).viewOf f.backendClass = .away :=
        viewOf_away (by rw [hpc]; exact serving_of_none hset)
      rw [ho.balance client i, haway]
      rfl
    | some set =>
      obtain ⟨i, hi⟩ := Option.isSome_iff_exists.mp (hready.foundBackend (by rw [hset]; rfl))
      exact .inl (gotSet_of_serving ho htarget hf hpc hi hset)
  notCrashed client hpc := by
    have hready := h client
    rw [hpc] at hready
    exact hready
  settled client hpc c hc i := by
    have haway : (s.threads client).viewOf c = .away := viewOf_away (by rw [hpc]; rfl)
    rw [(ht c hc).1.balance client i, haway]
    rfl

theorem allOrNothing_of_reach (h : Reach (step cfg) init (RestartServed cfg) s) :
    AllOrNothing s :=
  allOrNothing_of_ready (allReady_of_reach h) (linked_of_reach h) (targetSets_of_reach h)

/-- A second attempt that fails leaves a set without an instance. -/
theorem not_allOrNothing (h : AllReady s) (hs : step cfg s e = some s')
    (hok : ¬ RestartServed cfg s e) : ¬ AllOrNothing s' := by
  intro hall
  cases e with
  | thread client o =>
    obtain ⟨f, a, hts⟩ := stepThread_spec hs
    obtain ⟨f', hf', hfail⟩ : ∃ f' ∈ (s.threads client).frontend, ¬ failsAgain cfg s.clock
        (s.classes f'.backendClass) (s.threads client).pc o = false := by
      simpa only [RestartServed, not_forall, exists_prop] using hok
    have hsame : f = f' := Option.some.inj (hts.frontend.symm.trans hf')
    subst hsame
    obtain ⟨g, hpc, hset, hback⟩ := failsAgain_returned (h client) (by simpa using hfail) hts.step
    cases hfront : a.frontend with
    | none =>
      have hidle := (threadStep_keeps hts.step).none hfront
      rw [hpc] at hidle
      cases hidle
    | some f'' =>
      have hthread := hts.thread
      rw [hfront, hpc] at hthread
      rcases hall.returned client f'' g (by rw [hthread]) (by rw [hthread]) with
        ⟨i, _, _, hi, _⟩ | ⟨hnone, _⟩
      · rw [hback] at hi
        cases hi
      · rw [hnone] at hset
        cases hset
  | clock now => exact hok trivial
  | request client r => exact hok trivial
  | worker => exact hok trivial

/-- In every run in which no second attempt after a restart fails, what `get_set` returns is all or
nothing, no null pointer is used and everything acquired is given back; and the first step at which
a second attempt fails breaks this. -/
theorem acquisition_all_or_nothing (h : Reach (step cfg) init (RestartServed cfg) s) :
    AllOrNothing s ∧
      ∀ e s', step cfg s e = some s' → (AllOrNothing s' ↔ RestartServed cfg s e) := by
  refine ⟨allOrNothing_of_reach h, fun e s' hs => ⟨fun hall => ?_, fun hok => ?_⟩⟩
  · by_contra hok
    exact not_allOrNothing (allReady_of_reach h) hs hok hall
  · exact allOrNothing_of_reach (h.next hok hs)

/-! ### A restart -/

def restarts : Config := { Config.default with restart := true }

/-- The first search of a client fails, and the session is restarted. -/
def searchRestarts : List Label :=
  inits 0 true ++ .request 0 (.search (searchTitle "1" 120)) :: goes 0 3 ++
    [.thread 0 (failed 2)] ++ goes 0 2

theorem acquisition_all_or_nothing_restarted :
    ∃ s, Reach (step restarts) init (RestartServed restarts) s ∧
      (∃ g, (s.threads 0).pc = .returned g ∧ g.restarted = true ∧ g.foundSet.isSome = true) ∧
      AllOrNothing s := by
  let script := searchRestarts ++ goes 0 1 ++ [.thread 0 (.initAnswered (accepts true))] ++
    goes 0 3 ++ [.thread 0 (hits 3)]
  have hok : RunOk (step restarts) (RestartServed restarts) St.start script := by decide
  have hrun : (run (step restarts) St.start script).any (fun s => match (s.threads 0).pc with
    | .returned g => g.restarted && g.foundSet.isSome
    | _ => false) = true := by decide
  obtain ⟨s, hr, hp⟩ := Reach.exists_of_run init_start hok hrun
  refine ⟨s, hr, ?_, (acquisition_all_or_nothing hr).1⟩
  split at hp
  · rename_i g hpc
    exact ⟨g, hpc, Bool.and_eq_true_iff.mp hp⟩
  · cases hp

/-- The target refuses the second session: the search goes on with a null instance. -/
theorem restart_refused :
    ¬ ∀ (cfg : Config) (s : St), Reach (step cfg) init Any s → AllOrNothing s := by
  intro h
  let refused : InitOutcome := ⟨none, true⟩
  let script := searchRestarts ++ goes 0 1 ++ [.thread 0 (.initAnswered refused)] ++ goes 0 2
  have hrun : (run (step restarts) St.start script).any
      (fun s => (s.threads 0).pc = .crashed) = true := by decide
  obtain ⟨s, hr, hp⟩ := Reach.exists_of_run init_start (runOk_any _ _) hrun
  exact (h restarts s hr).notCrashed 0 (of_decide_eq_true hp)

end SessionShared
end Metaproxy
