import Metaproxy.SessionShared.Ownership

/-!
# SessionShared.Eviction

When sets are replaced and instances dropped, against when they last served a request. The two
evictors go by time stamps; a set is stamped only when it is made, an instance only when a request
goes to the target. Where the stamps that an evictor reads are not behind the last request served
(`StampsCurrent`), it evicts by last use (`evicts_by_last_use`). A search answered from a set, and a
present answered from the record cache, leave both stamps behind.
-/

namespace Metaproxy
namespace SessionShared

open Lib BackendClass

variable {cfg : Config} {s s' : St} {e : Label} {client : Client} {a a' : ClassState}
  {bc bc' : BackendClass} {v v' : View} {now : Time} {fresh : Nat} {earlier : List Event}

/-! ## Requests served -/

/-- When requests were served from the set `ptr`. -/
def servedFrom (ptr : Nat) (log : List Event) : List Time :=
  log.filterMap fun
    | .served _ ptr' time => if ptr' = ptr then some time else none
    | _ => none

/-- When requests were served from sets of the instance. -/
def servedOn (i : InstanceId) (log : List Event) : List Time :=
  log.filterMap fun
    | .served i' _ time => if i' = i then some time else none
    | _ => none

/-- What is evicted has served no request during the last `ttl` seconds. -/
def Timely (cfg : Config) (earlier : List Event) : Event → Prop
  | .replaced _ ptr false now => ∀ time ∈ servedFrom ptr earlier, cfg.resultsetTtl ≤ now - time
  | .dropped i now => ∀ time ∈ servedOn i earlier, cfg.sessionTtl < now - time
  | _ => True

def EvictsByLastUse (cfg : Config) : List Event → Prop
  | [] => True
  | e :: earlier => Timely cfg earlier e ∧ EvictsByLastUse cfg earlier

instance (cfg : Config) (earlier : List Event) : (e : Event) → Decidable (Timely cfg earlier e)
  | .replaced _ ptr false now =>
    inferInstanceAs (Decidable (∀ time ∈ servedFrom ptr earlier, cfg.resultsetTtl ≤ now - time))
  | .dropped i now =>
    inferInstanceAs (Decidable (∀ time ∈ servedOn i earlier, cfg.sessionTtl < now - time))
  | .replaced _ _ true _ => isTrue trivial
  | .initAnswered _ | .acquired _ _ | .released _ _ | .removed _ _ => isTrue trivial
  | .searchSent .. | .presentSent .. | .served .. => isTrue trivial

instance decidableEvicts (cfg : Config) : (log : List Event) → Decidable (EvictsByLastUse cfg log)
  | [] => isTrue trivial
  | e :: earlier =>
    have := decidableEvicts cfg earlier
    inferInstanceAs (Decidable (Timely cfg earlier e ∧ EvictsByLastUse cfg earlier))

/-! ## The condition -/

/-- The set that `override_set` replaces, when it is called with `out_of_sessions` off. -/
def replaces (cfg : Config) (now : Time) (bc : BackendClass) (pc : Pc) : Option BackendSet :=
  (pc.attempt cfg bc).bind fun g =>
    if cfg.optimizeSearch ∧
        (firstWith (similar g.databases g.query g.request.wantedSearchInfo) bc.backendList).isSome
      then none
    else
      match overrideSet cfg now bc g.databases g.outOfSessions with
      | some (.replace _ set) => if g.outOfSessions then none else some set
      | _ => none

/-- The stamps of the instances that `expire_instances` drops are not behind their last request,
and not ahead of the time it has read. -/
def DropsCurrent (cfg : Config) (s : St) : Worker → Prop
  | .timed n now => ∀ e ∈ s.backendMap.entries[n]?, ∀ b ∈ (s.classes e.2).backendList,
      expires cfg now b = true → b.timeLastUse ≤ now ∧
        ∀ time ∈ servedOn b.id (s.classes e.2).log, time ≤ b.timeLastUse
  | _ => True

/-- The clock does not go back, and no evictor decides by a stamp that is behind the last request
served. -/
def StampsCurrent (cfg : Config) (s : St) : Label → Prop
  | .clock now => s.clock ≤ now
  | .thread client .go => ∀ f ∈ (s.threads client).frontend,
      ∀ set ∈ replaces cfg s.clock (s.classes f.backendClass) (s.threads client).pc,
        ∀ time ∈ servedFrom set.ptr (s.classes f.backendClass).log, time ≤ set.timeLastUse
  | .worker => DropsCurrent cfg s s.worker
  | _ => True

instance (cfg : Config) (s : St) : (w : Worker) → Decidable (DropsCurrent cfg s w)
  | .timed _ _ => inferInstanceAs (Decidable (∀ e ∈ _, ∀ b ∈ _, _ → _ ∧ ∀ time ∈ _, _))
  | .idle | .visit _ | .emptied _ => isTrue trivial

instance (cfg : Config) (s : St) : (e : Label) → Decidable (StampsCurrent cfg s e)
  | .clock now => inferInstanceAs (Decidable (s.clock ≤ now))
  | .thread _ .go => inferInstanceAs (Decidable (∀ f ∈ _, ∀ set ∈ _, ∀ time ∈ _, _))
  | .thread _ (.initAnswered _) | .thread _ (.searched _) | .thread _ (.cached _)
  | .thread _ (.presented _) | .thread _ (.scanned ..) => isTrue trivial
  | .worker => inferInstanceAs (Decidable (DropsCurrent cfg s s.worker))
  | .request _ _ => isTrue trivial

/-! ## What a step adds to the log -/

/-- Neither a replacement nor a drop. -/
def Event.Keeps : Event → Prop
  | .replaced .. | .dropped .. => False
  | _ => True

theorem EvictsByLastUse.append {events : List Event} (h : EvictsByLastUse cfg earlier)
    (he : ∀ e ∈ events, e.Keeps) : EvictsByLastUse cfg (events ++ earlier) := by
  induction events with
  | nil => exact h
  | cons e events ih =>
    have hkeeps := he e (by simp)
    refine ⟨?_, ih fun e' he' => he e' (by simp [he'])⟩
    cases e <;> first | exact hkeeps.elim | trivial

theorem keeps_answered {r : Request} {i : InstanceId} {set : BackendSet} :
    ∀ e ∈ r.answered i set now, e.Keeps := by
  intro e he
  rw [answered_mem he]
  trivial

/-- Only the choice of an id adds a replacement. -/
theorem Moves.log (h : Moves cfg now fresh client bc v bc' v') :
    (∃ events, bc'.log = events ++ bc.log ∧ ∀ e ∈ events, e.Keeps) ∨
      (v = .away ∧ ∃ i id, v' = .reserved i id) := by
  cases h with
  | quiet hs => exact .inl ⟨[], hs.log, by simp⟩
  | giveUp hs _ => exact .inl ⟨[], hs.log, by simp⟩
  | crash _ _ => exact .inl ⟨[], rfl, by simp⟩
  | beginCreate => exact .inl ⟨[], rfl, by simp⟩
  | created granted _ _ _ _ hlog _ =>
    exact .inl ⟨[.acquired client fresh, .initAnswered granted], hlog, by simp [Event.Keeps]⟩
  | notCreated granted _ _ _ hlog _ =>
    exact .inl ⟨[.initAnswered granted], hlog, by simp [Event.Keeps]⟩
  | @take b _ _ => exact .inl ⟨[.acquired client b.id], rfl, by simp [Event.Keeps]⟩
  | @found b set _ _ r _ _ _ _ _ =>
    refine .inl ⟨r.answered b.id set now ++ [.acquired client b.id], ?_, ?_⟩
    · simp [record, BackendClass.useBackend]
    · intro e he
      rcases List.mem_append.mp he with hans | hacq
      · exact keeps_answered e hans
      · rw [List.mem_singleton.mp hacq]
        trivial
  | replace _ _ _ _ _ => exact .inr ⟨rfl, _, _, rfl⟩
  | add _ _ _ => exact .inr ⟨rfl, _, _, rfl⟩
  | choose _ => exact .inl ⟨[], countId_log, by simp⟩
  | timestamp _ => exact .inl ⟨[], rfl, by simp⟩
  | send _ _ => exact .inl ⟨[_], rfl, by simp [Event.Keeps]⟩
  | push r _ _ => exact .inl ⟨r.answered _ _ now, rfl, keeps_answered⟩
  | cached => exact .inl ⟨[_], rfl, by simp [Event.Keeps]⟩
  | forward => exact .inl ⟨[_, _], rfl, by simp [Event.Keeps]⟩
  | @release _ i _ => exact .inl ⟨[.released client i], rfl, by simp [Event.Keeps]⟩
  | @remove _ i _ => exact .inl ⟨[.removed client i], rfl, by simp [Event.Keeps]⟩

/-- The replacement that `getSetStep` may add to the log. -/
structure Replaced (cfg : Config) (now : Time) (client : Client) (bc bc' : BackendClass)
    (g : GetSet) (b : BackendInstance) (set : BackendSet) : Prop where
  similar : (if cfg.optimizeSearch then
    firstWith (BackendClass.similar g.databases g.query g.request.wantedSearchInfo) bc.backendList
    else none) = none
  override : overrideSet cfg now bc g.databases g.outOfSessions = some (.replace b set)
  log : bc'.log = [.acquired client b.id, .replaced b.id set.ptr g.outOfSessions now] ++ bc.log

theorem getSetStep_log {f : Frontend} (g : GetSet) :
    (∃ events, (getSetStep cfg now client bc f g).backendClass.log = events ++ bc.log ∧
      ∀ e ∈ events, e.Keeps) ∨
    ∃ b set, Replaced cfg now client bc (getSetStep cfg now client bc f g).backendClass g b set := by
  unfold getSetStep
  split
  · rename_i b set _
    split
    · exact .inl ⟨[], rfl, by simp⟩
    · refine .inl ⟨g.request.answered b.id set now ++ [.acquired client b.id], ?_, ?_⟩
      · simp [record, BackendClass.useBackend]
      · intro e he
        rcases List.mem_append.mp he with hans | hacq
        · exact keeps_answered e hans
        · rw [List.mem_singleton.mp hacq]
          trivial
  · rename_i hsim
    unfold overrideStep
    split
    · rename_i b set hover
      exact .inr ⟨b, set, hsim, hover, rfl⟩
    · rename_i b _
      refine .inl ⟨[.acquired client b.id], ?_, by simp [Event.Keeps]⟩
      simp [BackendClass.useBackend, countId_log]
    · split <;> exact .inl ⟨[], rfl, by simp⟩

theorem threadStep_log {f : Frontend} {pc : Pc} {o : Outcome} {r : After}
    (h : threadStep cfg now fresh client bc f pc o = some r) :
    (∃ events, r.backendClass.log = events ++ bc.log ∧ ∀ e ∈ events, e.Keeps) ∨
    ∃ g b set, pc.attempt cfg bc = some g ∧ o = .go ∧
      Replaced cfg now client bc r.backendClass g b set := by
  rcases (threadStep_moves h).log with hkeeps | ⟨haway, i, id, hid⟩
  · exact .inl hkeeps
  · rcases threadStep_away h haway with ⟨g, hg, hgo, rfl⟩ | ⟨-, hcreating, -⟩ | hstay | ⟨j, hj⟩
    · rcases getSetStep_log g with hkeeps | ⟨b, set, hrep⟩
      · exact .inl hkeeps
      · exact .inr ⟨g, b, set, hg, hgo, hrep⟩
    · rw [hcreating] at hid
      cases hid
    · rw [hstay] at hid
      cases hid
    · rw [hj] at hid
      cases hid

theorem Replaced.replaces {pc : Pc} {g : GetSet} {b : BackendInstance} {set : BackendSet}
    (h : Replaced cfg now client bc bc' g b set) (hg : pc.attempt cfg bc = some g)
    (hin : g.outOfSessions = false) :
    SessionShared.replaces cfg now bc pc = some set := by
  have hnot : ¬ (cfg.optimizeSearch = true ∧ (firstWith (BackendClass.similar g.databases g.query
      g.request.wantedSearchInfo) bc.backendList).isSome = true) := by
    rintro ⟨hopt, hsome⟩
    have hsim := h.similar
    rw [if_pos hopt] at hsim
    rw [hsim] at hsome
    cases hsome
  unfold SessionShared.replaces
  rw [hg, Option.bind_some, if_neg hnot, h.override]
  simp [hin]

/-! ## Stamps are not ahead of the clock -/

def SetsDated (now : Time) (bc : BackendClass) : Prop :=
  ∀ b ∈ bc.backendList, ∀ set ∈ b.sets, set.timeLastUse ≤ now

def ViewDated (now : Time) : View → Prop
  | .searching _ set _ _ => set.timeLastUse ≤ now
  | _ => True

theorem SetsDated.modify {i : InstanceId} {f : BackendInstance → BackendInstance}
    (h : SetsDated now bc) (hf : ∀ b, ∀ set ∈ (f b).sets, set ∈ b.sets ∨ set.timeLastUse ≤ now) :
    SetsDated now (bc.modify i f) := by
  intro b' hb' set hset
  obtain ⟨b, hb, rfl⟩ := List.mem_map.mp hb'
  split at hset
  · rcases hf b set hset with hold | hnew
    · exact h b hb set hold
    · exact hnew
  · exact h b hb set hset

/-- A change of an instance that keeps its sets. -/
theorem SetsDated.modify_same {i : InstanceId} {f : BackendInstance → BackendInstance}
    (h : SetsDated now bc) (hf : ∀ b, (f b).sets = b.sets) : SetsDated now (bc.modify i f) :=
  h.modify fun b _ hset => .inl (hf b ▸ hset)

theorem SetsDated.useBackend (client : Client) (i : InstanceId) (h : SetsDated now bc) :
    SetsDated now (bc.useBackend client i) :=
  h.modify_same (f := fun b => { b with inUse := true, sequenceThis := bc.sequenceTop })
    fun _ => rfl

theorem SetsDated.countId {i : InstanceId} (h : SetsDated now bc) :
    SetsDated now (bc.countId i) := by
  unfold BackendClass.countId
  split
  · exact h.modify_same fun _ => rfl
  · exact h

theorem SetsDated.subset (h : SetsDated now bc)
    (hsub : ∀ b ∈ bc'.backendList, b ∈ bc.backendList) : SetsDated now bc' :=
  fun b hb => h b (hsub b hb)

theorem Moves.dated (h : Moves cfg now fresh client bc v bc' v') (hsets : SetsDated now bc)
    (hview : ViewDated now v) : SetsDated now bc' ∧ ViewDated now v' := by
  cases h with
  | quiet hs => exact ⟨hsets.subset fun b hb => hs.backendList ▸ hb, hview⟩
  | giveUp hs _ => exact ⟨hsets.subset fun b hb => hs.backendList ▸ hb, trivial⟩
  | crash _ _ => exact ⟨hsets, trivial⟩
  | beginCreate => exact ⟨hsets, trivial⟩
  | created _ hv' _ hlist _ _ _ =>
    refine ⟨fun b hb set hset => ?_, ?_⟩
    · rw [hlist] at hb
      rcases List.mem_append.mp hb with hold | hnew
      · exact hsets b hold set hset
      · rw [List.mem_singleton.mp hnew] at hset
        cases hset
    · rcases hv' with rfl | rfl <;> trivial
  | notCreated _ _ hlist _ _ _ => exact ⟨hsets.subset fun b hb => hlist ▸ hb, trivial⟩
  | take _ _ => exact ⟨hsets.useBackend client _, trivial⟩
  | found _ _ _ _ _ _ => exact ⟨hsets.useBackend client _, trivial⟩
  | replace _ _ _ _ _ =>
    refine ⟨SetsDated.useBackend client _ (hsets.modify fun b set hset => .inl ?_), trivial⟩
    exact (List.mem_filter.mp hset).1
  | add _ _ _ => exact ⟨hsets.countId.useBackend client _, trivial⟩
  | choose _ => exact ⟨hsets.countId, trivial⟩
  | timestamp _ => exact ⟨hsets.modify_same fun _ => rfl, hview⟩
  | send _ hlast => exact ⟨hsets, Int.le_of_eq hlast⟩
  | push _ _ _ =>
    refine ⟨hsets.modify fun b set hset => ?_, trivial⟩
    rcases List.mem_append.mp hset with hold | hnew
    · exact .inl hold
    · rw [List.mem_singleton.mp hnew]
      exact .inr hview
  | cached => exact ⟨hsets, trivial⟩
  | forward => exact ⟨hsets, trivial⟩
  | release _ => exact ⟨hsets.modify_same fun _ => rfl, trivial⟩
  | remove _ => exact ⟨hsets.subset fun b hb => (List.mem_filter.mp hb).1, trivial⟩

structure Dated (a : ClassState) : Prop where
  sets : SetsDated a.clock a.backendClass
  views : ∀ client, ViewDated a.clock (a.views client)

theorem dated_new (h : a.New) : Dated a := by
  obtain ⟨⟨key, hbc⟩, hviews⟩ := h
  refine ⟨fun b hb => ?_, fun client => ?_⟩
  · rw [hbc] at hb
    cases hb
  · rw [hviews client]
    trivial

theorem ViewDated.mono {now' : Time} (h : ViewDated now v) (hle : now ≤ now') :
    ViewDated now' v := by
  cases v with
  | searching i set databases query => exact Int.le_trans h hle
  | _ => trivial

/-- As long as the clock does not go back. -/
theorem dated_step (h : Dated a) (hclock : a.clock ≤ a'.clock) (hs : ClassStep cfg a a') :
    Dated a' := by
  cases hs with
  | rest hsame hviews _ =>
    refine ⟨fun b hb set hset => ?_, fun client => ?_⟩
    · rw [hsame.backendList] at hb
      exact Int.le_trans (h.sets b hb set hset) hclock
    · rw [hviews]
      exact (h.views client).mono hclock
  | move client hm =>
    obtain ⟨hsets, hview⟩ := hm.dated h.sets (h.views client)
    refine ⟨hsets, fun client' => ?_⟩
    simp only
    by_cases hc : client' = client
    · subst hc
      rw [Function.update_self]
      exact hview
    · rw [Function.update_of_ne hc]
      exact h.views client'
  | expire now => exact ⟨h.sets.subset fun b hb => (List.mem_filter.mp hb).1, h.views⟩

theorem stepWorker_timed {n : Nat} (h : stepWorker cfg s = some s')
    (hnew : s'.worker = .timed n now) : now = s.clock := by
  unfold stepWorker at h
  split at h
  · cases h
    cases hnew
  · split at h <;> cases h
    · cases hnew
      rfl
    · cases hnew
  · obtain ⟨e, -, rfl⟩ := Option.map_eq_some_iff.mp h
    simp only at hnew
    split at hnew <;> cases hnew
  · obtain ⟨e, -, rfl⟩ := Option.map_eq_some_iff.mp h
    cases hnew

/-- What a step that is not the worker's leaves as it is. -/
theorem step_worker (hs : step cfg s e = some s') (he : e ≠ .worker) : s'.worker = s.worker := by
  cases e with
  | clock now =>
    cases hs
    rfl
  | request client r =>
    cases startRequest_requested hs with
    | ignored heq => rw [heq]
    | started th _ hst => exact hst.worker
    | newClass th key hst _ _ _ _ _ => exact hst.worker
  | thread client o =>
    obtain ⟨f, r, hts⟩ := stepThread_spec hs
    rw [hts.state]
    rfl
  | worker => exact absurd rfl he

theorem clock_le (hs : step cfg s e = some s') (hok : StampsCurrent cfg s e) :
    s.clock ≤ s'.clock := by
  cases e with
  | clock now =>
    cases hs
    exact hok
  | request client r =>
    cases startRequest_requested hs with
    | ignored heq => exact Int.le_of_eq (congrArg St.clock heq.symm)
    | started th _ hst => exact Int.le_of_eq hst.clock.symm
    | newClass th key hst _ _ _ _ _ => exact Int.le_of_eq hst.clock.symm
  | thread client o =>
    obtain ⟨f, r, hts⟩ := stepThread_spec hs
    rw [hts.state]
    exact Int.le_refl _
  | worker => exact Int.le_of_eq (stepWorker_frame hs).clock.symm

/-- The time that the worker has read is not ahead. -/
def WorkerDated (s : St) : Prop := ∀ n now, s.worker = .timed n now → now ≤ s.clock

theorem workerDated_of_reach (h : Reach (step cfg) init (StampsCurrent cfg) s) : WorkerDated s := by
  refine h.invariant (fun s hs n now hw => ?_) fun s e s' hI hok hs n now hw => ?_
  · rw [hs.2.2.2] at hw
    cases hw
  · by_cases he : e = .worker
    · subst he
      rw [stepWorker_timed hs hw]
      exact clock_le hs hok
    · rw [step_worker hs he] at hw
      exact Int.le_trans (hI n now hw) (clock_le hs hok)

/-! ## All runs -/

theorem servedOn_dropped {i : InstanceId} {list : List BackendInstance} {clock : Time} :
    servedOn i ((list.map fun b => Event.dropped b.id clock) ++ earlier) = servedOn i earlier := by
  induction list with
  | nil => rfl
  | cons b list ih => exact ih

/-- Several instances are dropped at once. -/
theorem EvictsByLastUse.dropped {list : List BackendInstance} {clock : Time}
    (h : EvictsByLastUse cfg earlier)
    (hlist : ∀ b ∈ list, ∀ time ∈ servedOn b.id earlier, cfg.sessionTtl < clock - time) :
    EvictsByLastUse cfg ((list.map fun b => Event.dropped b.id clock) ++ earlier) := by
  induction list with
  | nil => exact h
  | cons b list ih =>
    refine ⟨?_, ih fun b' hb' => hlist b' (by simp [hb'])⟩
    intro time htime
    have htime' : time ∈ servedOn b.id earlier := by rwa [← servedOn_dropped]
    exact hlist b (by simp) time htime'

theorem expires_timely {b : BackendInstance} {clock : Time} (hexp : expires cfg now b = true)
    (hstamp : b.timeLastUse ≤ now) (hnow : now ≤ clock) {time : Time}
    (htime : time ≤ b.timeLastUse) : cfg.sessionTtl < clock - time := by
  unfold expires at hexp
  simp only [Bool.and_eq_true, Bool.or_eq_true, decide_eq_true_eq] at hexp
  unfold Time at *
  rcases hexp.2 with hlt | hgt <;> omega

theorem replaced_timely {pc : Pc} {g : GetSet} {b : BackendInstance}
    {set : BackendSet} (hrep : Replaced cfg now client bc bc' g b set)
    (hg : pc.attempt cfg bc = some g) (hdated : SetsDated now bc)
    (hok : ∀ set ∈ replaces cfg now bc pc, ∀ time ∈ servedFrom set.ptr bc.log,
      time ≤ set.timeLastUse) :
    Timely cfg bc.log (.replaced b.id set.ptr g.outOfSessions now) := by
  cases hout : g.outOfSessions with
  | true => trivial
  | false =>
    intro time htime
    obtain ⟨hb, -, hset, hage⟩ := overrideSet_replace hrep.override
    have hstamp := hdated b hb set hset
    have hserved := hok set (hrep.replaces hg hout) time htime
    unfold Replaceable at hage
    unfold Time at *
    rcases hage with hout' | hlt | hge
    · rw [hout] at hout'
      cases hout'
    · omega
    · omega

theorem evicts_step {c : Nat} (h : EvictsByLastUse cfg (s.classes c).log)
    (hdated : Dated (s.classAt c)) (hworker : WorkerDated s) (hok : StampsCurrent cfg s e)
    (hat : StepAt cfg s e s' c) : EvictsByLastUse cfg (s'.classes c).log := by
  cases hat with
  | rest hsame _ _ =>
    rw [hsame.log]
    exact h
  | thread client o f r he hts hc heq =>
    subst he
    subst hc
    have hbc : s'.classes f.backendClass = r.backendClass := congrArg ClassState.backendClass heq
    rw [hbc]
    rcases threadStep_log hts.step with ⟨events, hlog, hkeeps⟩ | ⟨g, b, set, hg, rfl, hrep⟩
    · rw [hlog]
      exact h.append hkeeps
    · rw [hrep.log]
      exact ⟨trivial, replaced_timely hrep hg hdated.sets (hok f hts.frontend), h⟩
  | expire n now k he hw hk heq =>
    subst he
    have hbc : s'.classes c = (s.classes c).expireInstances cfg now s.clock :=
      congrArg ClassState.backendClass heq
    rw [hbc]
    refine h.dropped fun b hb time htime => ?_
    obtain ⟨hmem, hexp⟩ := List.mem_filter.mp hb
    unfold StampsCurrent at hok
    rw [hw] at hok
    obtain ⟨hstamp, hserved⟩ := hok ⟨k, c⟩ hk b hmem hexp
    exact expires_timely hexp hstamp (hworker n now hw) (hserved time htime)

/-- In every run whose clock does not go back and whose evictors do not decide by stamps that are
behind: no set replaced below the limit of sessions has served a request during the last
`resultsetTtl` seconds, and no instance dropped has served one during the last `sessionTtl`. -/
theorem evicts_by_last_use (h : Reach (step cfg) init (StampsCurrent cfg) s) {c : Nat}
    (hc : c < s.made) : EvictsByLastUse cfg (s.classes c).log := by
  refine (everyClass (I := fun a => Dated a ∧ EvictsByLastUse cfg a.backendClass.log)
    (fun a hnew => ⟨dated_new hnew, ?_⟩)
    (fun s e s' c hr _ hok hs hat hI => ⟨?_, ?_⟩) h c hc).2
  · obtain ⟨⟨key, hbc⟩, -⟩ := hnew
    rw [hbc]
    trivial
  · exact dated_step hI.1 (clock_le hs hok) hat.classStep
  · exact evicts_step hI.2 hI.1 (workerDated_of_reach hr) hok hat

/-- A set that was made 30 seconds ago, and has served no request since, is replaced. -/
theorem evicts_by_last_use_unused : ∃ s,
    Reach (step .default) init (StampsCurrent .default) s ∧
    (s.classes 0).log.any (fun | .replaced _ _ false 30 => true | _ => false) = true ∧
    EvictsByLastUse .default (s.classes 0).log := by
  let script := inits 0 true ++ searches 0 (searchTitle "1" 120) (hits 3) ++ .clock 30 ::
    searches 0 (searchTitle "2" 121) (hits 4)
  have hok : RunOk (step .default) (StampsCurrent .default) St.start script := by decide
  have hrun : (run (step .default) St.start script).any (fun s => s.made = 1 ∧
      (s.classes 0).log.any (fun | .replaced _ _ false 30 => true | _ => false) = true) = true := by
    decide
  obtain ⟨s, hr, hp⟩ := Reach.exists_of_run init_start hok hrun
  obtain ⟨hmade, hrep⟩ := of_decide_eq_true hp
  exact ⟨s, hr, hrep, evicts_by_last_use hr (by omega)⟩

/-- The clock does not go back. -/
def Forward (s : St) : Label → Prop
  | .clock now => s.clock ≤ now
  | _ => True

instance (s : St) : (e : Label) → Decidable (Forward s e)
  | .clock now => inferInstanceAs (Decidable (s.clock ≤ now))
  | .request _ _ | .thread _ _ | .worker => isTrue trivial

/-- A set is made at 0 and answers the same search again at 20; another search replaces it at 35. -/
theorem answered_set_replaced :
    ¬ ∀ (cfg : Config) (s : St), Reach (step cfg) init Forward s →
      ∀ c < s.made, EvictsByLastUse cfg (s.classes c).log := by
  intro h
  let script := inits 0 true ++ searches 0 (searchTitle "1" 120) (hits 3) ++ .clock 20 ::
    .request 0 (.search (searchTitle "2" 120)) :: goes 0 3 ++ .clock 35 ::
    searches 0 (searchTitle "3" 121) (hits 4)
  have hok : RunOk (step .default) Forward St.start script := by decide
  have hrun : (run (step .default) St.start script).any (fun s => s.made = 1 ∧
      ¬ EvictsByLastUse .default (s.classes 0).log) = true := by decide
  obtain ⟨s, hr, hp⟩ := Reach.exists_of_run init_start hok hrun
  obtain ⟨hmade, hbad⟩ := of_decide_eq_true hp
  exact hbad (h .default s hr 0 (by omega))

end SessionShared
end Metaproxy
