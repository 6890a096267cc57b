import Metaproxy.LoadBalance.Impl

/-!
# LoadBalance.Sessions

Session accounting: does `sessions` of a target count the session ids that `m_session_target` maps
to it?

It does as long as every session that is added is new (`add_session` counts a session again when
its id is known already) and every session that is removed after a close from the client leaves a
target that had just this session or has been marked dead (`remove_session` erases the whole entry
when `deads` is 0). `sessions_sound` says so for every run, and that a step that does anything else
loses the count.
-/

namespace Metaproxy
namespace LoadBalance

open Lib

namespace Impl

/-- The `sessions` counter of a target, 0 without an entry. -/
def sessions (m : Impl) (target : String) : Nat :=
  ((m.targetStat.lookup target).map (·.sessions)).getD 0

def deads (m : Impl) (target : String) : Nat :=
  ((m.targetStat.lookup target).map (·.deads)).getD 0

def packages (m : Impl) (target : String) : Nat :=
  ((m.targetStat.lookup target).map (·.packages)).getD 0

/-- Every counter is the number of sessions mapped to its target. -/
def Sound (m : Impl) : Prop :=
  ∀ target, m.sessions target = m.sessionTarget.holders target

theorem cost_eq (m : Impl) {target : String} (h : target ≠ "") :
    m.cost target = (m.sessions target + m.packages target + m.deads target) % 2 ^ 32 := by
  unfold cost sessions packages deads
  rw [if_neg h]
  cases m.targetStat.lookup target <;> rfl

/-! ## Updates that leave the sessions alone -/

section UpdateStat

variable {m : Impl} {sid : Nat} {guard : TargetStat → Bool} {f : TargetStat → TargetStat}

theorem updateStat_sessionTarget :
    (m.updateStat sid guard f).sessionTarget = m.sessionTarget := by
  simp only [updateStat]
  split
  · rfl
  · split
    · rfl
    · split <;> rfl

theorem updateStat_some {target : String} {stat : TargetStat} (ht : m.findSessionTarget sid = target)
    (hne : target ≠ "") (hstat : m.targetStat.lookup target = some stat) :
    m.updateStat sid guard f =
      if guard stat then { m with targetStat := m.targetStat.insert target (f stat) } else m := by
  subst ht
  simp [updateStat, hne, hstat]

theorem updateStat_sessions (hf : ∀ stat, (f stat).sessions = stat.sessions) (target : String) :
    (m.updateStat sid guard f).sessions target = m.sessions target := by
  simp only [updateStat]
  split
  · rfl
  · split
    · rfl
    · rename_i stat hstat
      split
      · by_cases ht : target = m.findSessionTarget sid
        · subst ht; simp [sessions, hstat, hf]
        · simp [sessions, AList.lookup_insert_ne ht]
      · rfl

theorem updateStat_sound (hf : ∀ stat, (f stat).sessions = stat.sessions) :
    (m.updateStat sid guard f).Sound ↔ m.Sound := by
  simp only [Sound, updateStat_sessions hf, updateStat_sessionTarget]

end UpdateStat

theorem addPackage_sound {m : Impl} {sid : Nat} : (m.addPackage sid).Sound ↔ m.Sound :=
  updateStat_sound fun _ => rfl

theorem removePackage_sound {m : Impl} {sid : Nat} : (m.removePackage sid).Sound ↔ m.Sound :=
  updateStat_sound fun _ => rfl

theorem addDead_sound {m : Impl} {sid : Nat} : (m.addDead sid).Sound ↔ m.Sound :=
  updateStat_sound fun _ => rfl

@[simp] theorem addDead_sessionTarget {m : Impl} {sid : Nat} :
    (m.addDead sid).sessionTarget = m.sessionTarget :=
  updateStat_sessionTarget

/-- The target of a session with a counted session is marked dead. -/
theorem addDead_deads {m : Impl} {sid : Nat} {target : String}
    (ht : m.sessionTarget.lookup sid = some target) (hne : target ≠ "")
    (hs : 0 < m.sessions target) : (m.addDead sid).deads target ≠ 0 := by
  have hfind : m.findSessionTarget sid = target := by simp [findSessionTarget, ht]
  cases hstat : m.targetStat.lookup target with
  | none => simp [sessions, hstat] at hs
  | some stat =>
    rw [addDead, updateStat_some hfind hne hstat]
    split
    · simp [deads]
    · rename_i hmax
      simp only [decide_eq_true_eq] at hmax
      simp only [deads, hstat, Option.map_some, Option.getD_some]
      unfold uintMax at hmax
      omega

/-! ## `add_session` and `remove_session` -/

theorem addSession_sessions (m : Impl) (sid : Nat) (target u : String) :
    (m.addSession sid target).sessions u =
      m.sessions u + if target = u ∧ m.sessions target < uintMax then 1 else 0 := by
  by_cases hu : u = target
  · subst hu
    cases hstat : m.targetStat.lookup u with
    | none => simp [sessions, addSession, hstat, uintMax]
    | some stat =>
      by_cases hmax : stat.sessions < uintMax <;> simp [sessions, addSession, hstat, hmax]
  · have hu' : ¬ target = u := fun h => hu h.symm
    cases hstat : m.targetStat.lookup target with
    | none => simp [sessions, addSession, hstat, AList.lookup_insert_ne hu, hu']
    | some stat =>
      by_cases hmax : stat.sessions < uintMax <;>
        simp [sessions, addSession, hstat, hmax, AList.lookup_insert_ne hu, hu']

theorem addSession_holders (m : Impl) (sid : Nat) (target u : String) :
    (m.addSession sid target).sessionTarget.holders u =
      m.sessionTarget.holders u +
        if target = u ∧ m.sessionTarget.lookup sid = none then 1 else 0 := by
  cases hl : m.sessionTarget.lookup sid with
  | none =>
    simp only [addSession, hl, and_true]
    exact Table.holders_insert (AList.lookup_eq_none.mp hl) target u
  | some t => simp [addSession, hl]

/-- Adding a session keeps the count exactly when it is counted and recorded, or neither. -/
theorem addSession_sound {m : Impl} (hm : m.Sound) {sid : Nat} {target : String} :
    (m.addSession sid target).Sound ↔
      (m.sessionTarget.lookup sid = none ↔ m.sessions target < uintMax) := by
  simp only [Sound, addSession_sessions, addSession_holders, hm _]
  constructor
  · intro h
    have := h target
    simp only [true_and, Nat.add_left_cancel_iff] at this
    split at this <;> split at this <;> simp_all
  · intro h u
    simp only [h]

theorem removeSession_sessions {m : Impl} {sid : Nat} {target : String}
    (ht : m.sessionTarget.lookup sid = some target) (u : String) :
    (m.removeSession sid).sessions u =
      if u = target then
        if m.sessions target - 1 = 0 ∨ m.deads target = 0 then 0 else m.sessions target - 1
      else m.sessions u := by
  have hpred : ∀ n : Nat, (if 0 < n then n - 1 else n) = n - 1 := by
    intro n; split <;> omega
  by_cases hu : u = target
  · subst hu
    cases hstat : m.targetStat.lookup u with
    | none => simp [removeSession, ht, sessions, hstat]
    | some stat =>
      simp only [removeSession, ht, hstat, hpred, sessions, deads, Option.map_some,
        Option.getD_some, if_true]
      split <;> simp
  · cases hstat : m.targetStat.lookup target with
    | none => simp [removeSession, ht, sessions, hstat, hu]
    | some stat =>
      simp only [removeSession, ht, hstat, hpred, sessions, if_neg hu]
      split
      · rw [AList.lookup_erase_ne hu]
      · rw [AList.lookup_insert_ne hu]

/-- Removing a session keeps the count exactly when the entry that goes with it had no other
session. -/
theorem removeSession_sound {m : Impl} (hm : m.Sound) {sid : Nat} :
    (m.removeSession sid).Sound ↔
      ∀ target ∈ m.sessionTarget.lookup sid, m.sessions target = 1 ∨ m.deads target ≠ 0 := by
  cases hl : m.sessionTarget.lookup sid with
  | none => simp [removeSession, hl, hm]
  | some target =>
    have herase : (m.removeSession sid).sessionTarget = m.sessionTarget.erase sid := by
      simp [removeSession, hl]
    have hpos : 0 < m.sessions target := by rw [hm target]; exact Table.holders_pos hl
    have hcount := fun u => Table.holders_erase hl u
    simp only [Sound, removeSession_sessions hl, herase, Option.mem_def, Option.some.injEq, forall_eq']
    constructor
    · intro h
      have h1 := h target
      have h2 := hcount target
      have h3 := hm target
      simp only [if_true] at h1 h2
      split at h1 <;> omega
    · intro h u
      have h2 := hcount u
      have h3 := hm u
      by_cases hu : u = target
      · subst hu
        simp only [if_true] at h2 ⊢
        split <;> omega
      · simp only [if_neg hu, if_neg (fun h => hu h.symm : ¬ target = u)] at h2 ⊢
        omega

end Impl

/-! ## Runs -/

/-- The locked sections that keep the count: a session is added only when its id is new and the
counter is not saturated (or, the id being known, it is), and a session whose client closed is
removed only from a target that has no other session or was marked dead. -/
def Pc.KeepsCount (m : Impl) : Pc → Prop
  | .addSession p target _ =>
    m.sessionTarget.lookup p.sessionId = none ↔ m.sessions target < uintMax
  | .finish p _ isClosedFront =>
    isClosedFront = true → ∀ target ∈ m.sessionTarget.lookup p.sessionId,
      m.sessions target = 1 ∨ m.deads target ≠ 0
  | _ => True

instance (m : Impl) : ∀ pc : Pc, Decidable (pc.KeepsCount m)
  | .addSession p target _ =>
    inferInstanceAs (Decidable
      (m.sessionTarget.lookup p.sessionId = none ↔ m.sessions target < uintMax))
  | .finish p _ isClosedFront =>
    inferInstanceAs (Decidable
      (isClosedFront = true → ∀ target ∈ m.sessionTarget.lookup p.sessionId,
        m.sessions target = 1 ∨ m.deads target ≠ 0))
  | .choose .. | .initMove .. | .addPackage .. | .move .. | .removePackage .. | .done .. =>
    isTrue trivial

def KeepsCount (s : St) : Label → Prop
  | .thread i .go => ∀ pc ∈ s.threads[i]?, pc.KeepsCount s.impl
  | _ => True

instance (s : St) : ∀ a : Label, Decidable (KeepsCount s a)
  | .thread i .go => inferInstanceAs (Decidable (∀ pc ∈ s.threads[i]?, pc.KeepsCount s.impl))
  | .thread _ (.moved ..) | .start _ => isTrue trivial

/-- Targets are never the empty string: `pick` skips it. -/
def Pc.Named : Pc → Prop
  | .initMove _ target _ => target ≠ ""
  | .addSession _ target _ => target ≠ ""
  | _ => True

structure Named (s : St) : Prop where
  sessions : ∀ sid target, s.impl.sessionTarget.lookup sid = some target → target ≠ ""
  threads : ∀ pc ∈ s.threads, pc.Named

theorem pickFrom_named {m : Impl} {vhosts : List String} {i : Nat} {best : Option (Nat × String)}
    {costI : Nat} (hbest : ∀ b, best = some b → b.2 ≠ "") :
    ∀ b, m.pickFrom vhosts i best costI = some b → b.2 ≠ "" := by
  induction vhosts generalizing i best costI with
  | nil => exact hbest
  | cons v vs ih =>
    simp only [Impl.pickFrom]
    split
    · rename_i h
      exact ih fun b hb => by cases hb; exact h.1
    · exact ih hbest

theorem pick_named {m : Impl} {vhosts : List String} {i : Nat} {target : String}
    (h : m.pick vhosts = some (i, target)) : target ≠ "" :=
  pickFrom_named (fun b (hb : none = some b) => by cases hb) (i, target) h

/-- What one step of a thread does to the maps. -/
theorem stepThread_cases {m m' : Impl} {pc pc' : Pc} {e : Ev}
    (h : stepThread m pc e = some (m', pc')) :
    (m' = m ∧ (∀ p r f, pc ≠ .finish p r f) ∧ ∀ p t r, pc ≠ .addSession p t r) ∨
    (∃ p f, pc = .addPackage p f ∧ m' = m.addPackage p.sessionId) ∨
    (∃ p r f b, pc = .removePackage p r f b ∧ m' = m.removePackage p.sessionId) ∨
    (∃ p target r, pc = .addSession p target r ∧ e = .go ∧
      m' = m.addSession p.sessionId target) ∨
    (∃ p r f, pc = .finish p r f ∧ e = .go ∧
      m' = (if f then m else m.addDead p.sessionId).removeSession p.sessionId) := by
  cases pc with
  | choose p vhosts =>
    cases e with
    | go =>
      simp only [stepThread] at h
      split at h <;> cases h <;> exact .inl ⟨rfl, by simp, by simp⟩
    | moved closed r => cases h
  | initMove p target vhosts =>
    cases e with
    | go => cases h
    | moved closed r =>
      simp only [stepThread] at h
      split at h <;> cases h <;> exact .inl ⟨rfl, by simp, by simp⟩
  | addSession p target r =>
    cases e with
    | go => cases h; exact .inr (.inr (.inr (.inl ⟨p, target, r, rfl, rfl, rfl⟩)))
    | moved closed r' => cases h
  | addPackage p f =>
    cases e with
    | go => cases h; exact .inr (.inl ⟨p, f, rfl, rfl⟩)
    | moved closed r => cases h
  | move p f =>
    cases e with
    | go => cases h
    | moved closed r => cases r <;> cases h <;> exact .inl ⟨rfl, by simp, by simp⟩
  | removePackage p r f b =>
    cases e with
    | go => cases h; exact .inr (.inr (.inl ⟨p, r, f, b, rfl, rfl⟩))
    | moved closed r' => cases h
  | finish p r f =>
    cases e with
    | go => cases h; exact .inr (.inr (.inr (.inr ⟨p, r, f, rfl, rfl, rfl⟩)))
    | moved closed r' => cases h
  | done reply closed => cases e <;> cases h

theorem closing_named (p : Package) (r : Response) (f b : Bool) : (closing p r f b).Named := by
  unfold closing
  split <;> trivial

theorem stepThread_named {m m' : Impl} {pc pc' : Pc} {e : Ev}
    (h : stepThread m pc e = some (m', pc')) (hpc : pc.Named) : pc'.Named := by
  cases pc with
  | choose p vhosts =>
    cases e with
    | go =>
      simp only [stepThread] at h
      split at h
      · cases h; trivial
      · rename_i hp; cases h; exact pick_named hp
    | moved closed r => cases h
  | initMove p target vhosts =>
    cases e with
    | go => cases h
    | moved closed r =>
      simp only [stepThread] at h
      split at h
      · cases h; trivial
      · cases h; exact hpc
  | move p f =>
    cases e with
    | go => cases h
    | moved closed r =>
      cases r <;> cases h
      · trivial
      · trivial
      · exact closing_named _ _ _ _
  | removePackage p r f b =>
    cases e with
    | go => cases h; exact closing_named _ _ _ _
    | moved closed r' => cases h
  | addSession p target r => cases e <;> cases h; trivial
  | addPackage p f => cases e <;> cases h; trivial
  | finish p r f => cases e <;> cases h; trivial
  | done reply closed => cases e <;> cases h

theorem stepThread_sessions {m m' : Impl} {pc pc' : Pc} {e : Ev}
    (h : stepThread m pc e = some (m', pc')) (hpc : pc.Named)
    (hm : ∀ sid target, m.sessionTarget.lookup sid = some target → target ≠ "") :
    ∀ sid target, m'.sessionTarget.lookup sid = some target → target ≠ "" := by
  intro sid target ht
  obtain ⟨rfl, -, -⟩ | ⟨p, f, -, rfl⟩ | ⟨p, r, f, b, -, rfl⟩ | ⟨p, t, r, rfl, -, rfl⟩ |
    ⟨p, r, f, -, -, rfl⟩ := stepThread_cases h
  · exact hm sid target ht
  · rw [Impl.addPackage, Impl.updateStat_sessionTarget] at ht; exact hm sid target ht
  · rw [Impl.removePackage, Impl.updateStat_sessionTarget] at ht; exact hm sid target ht
  · simp only [Impl.addSession] at ht
    split at ht
    · by_cases hsid : sid = p.sessionId
      · subst hsid; simp at ht; subst ht; exact hpc
      · rw [AList.lookup_insert_ne hsid] at ht; exact hm sid target ht
    · exact hm sid target ht
  · have hst : (if f then m else m.addDead p.sessionId).sessionTarget = m.sessionTarget := by
      split <;> simp
    simp only [Impl.removeSession] at ht
    split at ht
    · rw [hst] at ht; exact hm sid target ht
    · simp only [hst] at ht
      by_cases hsid : sid = p.sessionId
      · subst hsid; simp at ht
      · rw [AList.lookup_erase_ne hsid] at ht; exact hm sid target ht

/-- How `step` acts: a new thread, or one step of a thread. -/
theorem step_cases {s s' : St} {a : Label} (h : step s a = some s') :
    (∃ p, a = .start p ∧ s' = { s with threads := s.threads ++ [entry p] }) ∨
    (∃ i e pc m pc', a = .thread i e ∧ s.threads[i]? = some pc ∧
      stepThread s.impl pc e = some (m, pc') ∧ s' = ⟨m, s.threads.set i pc'⟩) := by
  cases a with
  | start p => cases h; exact .inl ⟨p, rfl, rfl⟩
  | thread i e =>
    simp only [step] at h
    split at h
    · cases h
    · rename_i pc hpc
      split at h
      · cases h
      · rename_i m pc' hst
        cases h
        exact .inr ⟨i, e, pc, m, pc', rfl, hpc, hst, rfl⟩

theorem named_step {s s' : St} {a : Label} (hn : Named s) (h : step s a = some s') : Named s' := by
  obtain ⟨p, -, rfl⟩ | ⟨i, e, pc, m, pc', -, hpc, hst, rfl⟩ := step_cases h
  · refine ⟨hn.sessions, fun pc hpc => ?_⟩
    obtain hpc | hpc := List.mem_append.mp hpc
    · exact hn.threads pc hpc
    · rw [List.mem_singleton.mp hpc, entry]
      split <;> trivial
  · have hnpc := hn.threads pc (List.mem_of_getElem? hpc)
    refine ⟨stepThread_sessions hst hnpc hn.sessions, fun q hq => ?_⟩
    obtain hq | rfl := List.mem_or_eq_of_mem_set hq
    · exact hn.threads q hq
    · exact stepThread_named hst hnpc

/-- One step keeps the count exactly when it meets `KeepsCount`. -/
theorem step_sound {s s' : St} {a : Label} (hn : Named s) (hm : s.impl.Sound)
    (h : step s a = some s') : s'.impl.Sound ↔ KeepsCount s a := by
  obtain ⟨p, rfl, rfl⟩ | ⟨i, e, pc, m, pc', rfl, hpc, hst, rfl⟩ := step_cases h
  · exact iff_of_true hm trivial
  · obtain ⟨rfl, hf, ha⟩ | ⟨p, f, rfl, rfl⟩ | ⟨p, r, f, b, rfl, rfl⟩ | ⟨p, t, r, rfl, rfl, rfl⟩ |
      ⟨p, r, f, rfl, rfl, rfl⟩ := stepThread_cases hst
    · refine iff_of_true hm ?_
      cases e with
      | moved closed r => trivial
      | go =>
        simp only [KeepsCount, hpc, Option.mem_def, Option.some.injEq, forall_eq']
        cases pc with
        | addSession p t r => exact absurd rfl (ha p t r)
        | finish p r f => exact absurd rfl (hf p r f)
        | _ => trivial
    · refine iff_of_true (Impl.addPackage_sound.mpr hm) ?_
      cases e <;> simp [KeepsCount, hpc, Pc.KeepsCount]
    · refine iff_of_true (Impl.removePackage_sound.mpr hm) ?_
      cases e <;> simp [KeepsCount, hpc, Pc.KeepsCount]
    · simp only [KeepsCount, hpc, Option.mem_def, Option.some.injEq, forall_eq']
      exact Impl.addSession_sound hm
    · simp only [KeepsCount, hpc, Option.mem_def, Option.some.injEq, forall_eq']
      cases f with
      | true => simpa [Pc.KeepsCount] using Impl.removeSession_sound hm
      | false =>
        -- the mark that `add_dead` has just set keeps the entry
        refine iff_of_true ((Impl.removeSession_sound (Impl.addDead_sound.mpr hm)).mpr ?_) nofun
        intro target ht
        simp only [Impl.addDead_sessionTarget, Option.mem_def] at ht
        refine .inr (Impl.addDead_deads ht (hn.sessions _ _ ht) ?_)
        rw [hm target]
        exact Table.holders_pos ht

theorem named_of_reach {s : St} {ok : St → Label → Prop} (h : Reach step init ok s) : Named s :=
  h.invariant (fun s hs => by cases hs; exact ⟨by simp [Impl.empty], by simp⟩)
    fun _ _ _ hn _ hs => named_step hn hs

theorem sound_of_reach {s : St} (h : Reach step init KeepsCount s) : s.impl.Sound := by
  refine h.invariant_with (J := Named) (I := fun s => s.impl.Sound) (fun _ => named_of_reach) ?_ ?_
  · rintro s rfl target; simp [Impl.empty, Impl.sessions]
  · intro s a s' hn hm hok hs; exact (step_sound hn hm hs).mpr hok

/-- In every state reached by steps that meet `KeepsCount`, every `sessions` counter is the number
of sessions mapped to its target, so the cost of a target counts all of them; and the next step
keeps this exactly when it meets `KeepsCount` too. -/
theorem sessions_sound {s : St} (h : Reach step init KeepsCount s) :
    (∀ target, s.impl.sessions target = s.impl.sessionTarget.holders target) ∧
    (∀ target, target ≠ "" → s.impl.cost target =
      (s.impl.sessionTarget.holders target + s.impl.packages target + s.impl.deads target)
        % 2 ^ 32) ∧
    ∀ a s', step s a = some s' →
      ((∀ target, s'.impl.sessions target = s'.impl.sessionTarget.holders target) ↔
        KeepsCount s a) := by
  have hm := sound_of_reach h
  refine ⟨hm, fun target ht => ?_, fun a s' hs => step_sound (named_of_reach h) hm hs⟩
  rw [Impl.cost_eq _ ht, hm target]

/-- Two sessions on one target. -/
def twoSessions : List Label :=
  [.start ⟨1, false, .init ["a"]⟩, .start ⟨2, false, .init ["a"]⟩,
   .thread 0 .go, .thread 1 .go, .thread 0 (.moved false .other), .thread 1 (.moved false .other),
   .thread 0 .go, .thread 1 .go]

/-- The target closes the session of a third package, which marks it dead. -/
def targetCloses : List Label :=
  twoSessions ++ [.start ⟨1, false, .other⟩, .thread 2 .go, .thread 2 (.moved true .other),
    .thread 2 .go, .thread 2 .go]

/-- The client of session 1 closes it. -/
def clientCloses : List Label :=
  twoSessions ++ [.start ⟨1, false, .close⟩, .thread 2 .go, .thread 2 (.moved true .close),
    .thread 2 .go, .thread 2 .go]

theorem sessions_sound_targetCloses :
    ∃ s : St, s.impl.cost "a" = 2 ∧ s.impl.sessions "a" = s.impl.sessionTarget.holders "a" := by
  have hinit : init ⟨Impl.empty, []⟩ := rfl
  have hok : RunOk step KeepsCount ⟨Impl.empty, []⟩ targetCloses := by decide
  have hrun : (run step ⟨Impl.empty, []⟩ targetCloses).any (fun s => s.impl.cost "a" = 2) := by
    decide
  obtain ⟨s, hs, hp⟩ := Reach.exists_of_run hinit hok hrun
  exact ⟨s, by simpa using hp, (sessions_sound hs).1 "a"⟩

/-- After the client of one of two sessions of a target has closed it, the other is not counted. -/
theorem clientCloses_miscounts :
    ¬ ∀ s, Reach step init Any s →
      ∀ target, s.impl.sessions target = s.impl.sessionTarget.holders target := by
  intro h
  have hinit : init ⟨Impl.empty, []⟩ := rfl
  have hrun : (run step ⟨Impl.empty, []⟩ clientCloses).any
      (fun s => s.impl.sessions "a" ≠ s.impl.sessionTarget.holders "a") := by
    decide
  obtain ⟨s, hs, hp⟩ := Reach.exists_of_run hinit (runOk_any _ _) hrun
  simp only [decide_eq_true_eq] at hp
  exact hp (h s hs "a")

end LoadBalance
end Metaproxy
