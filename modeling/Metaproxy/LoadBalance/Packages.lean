import Mathlib.Data.List.Count
import Metaproxy.LoadBalance.Sessions

/-!
# LoadBalance.Packages

Package accounting: does `packages` of a target count the requests that `add_package` has counted
for it and that have not been through `remove_package`?

Whether a request is counted out depends on its response, and for which target on what its session
is mapped to by then; and `remove_session` drops the entry of a target with whatever it counts.

* `countStep` — the runs of `Impl`, with the target that every thread has been counted for.
* `countStep_accurate_iff` — when one step keeps the counters.
* `packages_accurate` — runs of such steps.
-/

namespace Metaproxy
namespace LoadBalance

open Lib

namespace Impl

/-- The target whose statistics `updateStat` updates. -/
def updates (m : Impl) (sessionId : Nat) (guard : TargetStat → Bool) : Option String :=
  let target := m.findSessionTarget sessionId
  if target = "" then none
  else
    match m.targetStat.lookup target with
    | none => none
    | some stat => if guard stat then some target else none

/-- The target that `add_package` counts a request for. -/
def countsIn (m : Impl) (sessionId : Nat) : Option String :=
  m.updates sessionId fun s => s.packages < uintMax

def countsOut (m : Impl) (sessionId : Nat) : Option String :=
  m.updates sessionId fun s => 0 < s.packages

section

variable {m : Impl} {sid : Nat}

theorem updateStat_packages {guard : TargetStat → Bool} {f : TargetStat → TargetStat}
    {g : Nat → Nat} (hf : ∀ stat, (f stat).packages = g stat.packages) (u : String) :
    (m.updateStat sid guard f).packages u =
      if m.updates sid guard = some u then g (m.packages u) else m.packages u := by
  simp only [updateStat, updates]
  split
  · simp
  · cases hstat : m.targetStat.lookup (m.findSessionTarget sid) with
    | none => simp
    | some stat =>
      by_cases hguard : guard stat = true
      · simp only [hguard, if_true, Option.some.injEq]
        by_cases hu : m.findSessionTarget sid = u
        · subst hu
          simp [packages, hstat, hf]
        · rw [if_neg hu]
          simp only [packages]
          rw [AList.lookup_insert_ne (Ne.symm hu)]
      · simp [hguard]

theorem addPackage_packages (u : String) :
    (m.addPackage sid).packages u =
      m.packages u + if m.countsIn sid = some u then 1 else 0 := by
  have hf : ∀ stat : TargetStat,
      ({ stat with packages := stat.packages + 1 } : TargetStat).packages = stat.packages + 1 :=
    fun _ => rfl
  rw [addPackage, updateStat_packages (g := (· + 1)) hf, countsIn]
  split_ifs <;> rfl

theorem removePackage_packages (u : String) :
    (m.removePackage sid).packages u =
      m.packages u - if m.countsOut sid = some u then 1 else 0 := by
  have hf : ∀ stat : TargetStat,
      ({ stat with packages := stat.packages - 1 } : TargetStat).packages = stat.packages - 1 :=
    fun _ => rfl
  rw [removePackage, updateStat_packages (g := (· - 1)) hf, countsOut]
  split_ifs <;> rfl

theorem addDead_packages (u : String) : (m.addDead sid).packages u = m.packages u := by
  have hf : ∀ stat : TargetStat,
      ({ stat with deads := stat.deads + 1 } : TargetStat).packages = id stat.packages :=
    fun _ => rfl
  rw [addDead, updateStat_packages hf]
  split_ifs <;> rfl

theorem addSession_packages (target u : String) :
    (m.addSession sid target).packages u = m.packages u := by
  by_cases hu : u = target
  · subst hu
    cases hstat : m.targetStat.lookup u with
    | none => simp [packages, addSession, hstat]
    | some stat =>
      by_cases hmax : stat.sessions < uintMax <;> simp [packages, addSession, hstat, hmax]
  · cases hstat : m.targetStat.lookup target with
    | none => simp [packages, addSession, hstat, AList.lookup_insert_ne hu]
    | some stat =>
      by_cases hmax : stat.sessions < uintMax <;>
        simp [packages, addSession, hstat, hmax, AList.lookup_insert_ne hu]

/-- The entry of a target goes with its last session, or when the target is not marked dead. -/
def Drops (m : Impl) (target : String) : Prop := m.sessions target - 1 = 0 ∨ m.deads target = 0

instance (m : Impl) (target : String) : Decidable (m.Drops target) :=
  inferInstanceAs (Decidable (_ ∨ _))

theorem removeSession_packages_of_none (h : m.sessionTarget.lookup sid = none) (u : String) :
    (m.removeSession sid).packages u = m.packages u := by
  rw [removeSession, h]

theorem removeSession_packages {target : String} (h : m.sessionTarget.lookup sid = some target)
    (u : String) :
    (m.removeSession sid).packages u =
      if u = target ∧ m.Drops target then 0 else m.packages u := by
  have hpred : ∀ n : Nat, (if 0 < n then n - 1 else n) = n - 1 := by
    intro n; split <;> omega
  by_cases hu : u = target
  · subst hu
    cases hstat : m.targetStat.lookup u with
    | none => simp [removeSession, h, packages, hstat]
    | some stat =>
      simp only [removeSession, h, hstat, hpred, packages, Drops, sessions, deads, Option.map_some,
        Option.getD_some, true_and]
      split <;> simp
  · cases hstat : m.targetStat.lookup target with
    | none => simp [removeSession, h, packages, hstat, hu]
    | some stat =>
      simp only [removeSession, h, hstat, hpred, packages, hu, false_and, if_false]
      split
      · rw [AList.lookup_erase_ne hu]
      · rw [AList.lookup_insert_ne hu]

end

end Impl

/-! ## Counted requests -/

/-- Between `add_package` and `remove_package`, if it comes to that. -/
def Pc.inFlight : Pc → Bool
  | .move .. => true
  | .removePackage .. => true
  | _ => false

/-- The threads, each with the target it has been counted for. -/
structure Ledger where
  impl : Impl
  threads : List (Pc × Option String)

def Ledger.St (s : Ledger) : St := ⟨s.impl, s.threads.map Prod.fst⟩

/-- What a thread is counted for after its next step. -/
def Pc.countedFor (m : Impl) (counted : Option String) : Pc → Option String
  | .addPackage p _ => m.countsIn p.sessionId
  | _ => counted

def countStep (s : Ledger) : Label → Option Ledger
  | .start p => some { s with threads := s.threads ++ [(entry p, none)] }
  | .thread i e =>
    match s.threads[i]? with
    | none => none
    | some (pc, counted) =>
      match stepThread s.impl pc e with
      | none => none
      | some (m, pc') => some ⟨m, s.threads.set i (pc', pc.countedFor s.impl counted)⟩

def countInit (s : Ledger) : Prop := s = ⟨Impl.empty, []⟩

/-- The runs are those of `step`. -/
theorem countStep_st (s : Ledger) (a : Label) : (countStep s a).map Ledger.St = step s.St a := by
  cases a with
  | start p => simp [countStep, step, Ledger.St]
  | thread i e =>
    simp only [countStep, step, Ledger.St, List.getElem?_map]
    cases s.threads[i]? with
    | none => rfl
    | some t =>
      obtain ⟨pc, counted⟩ := t
      simp only [Option.map_some]
      cases stepThread s.impl pc e with
      | none => rfl
      | some r => simp [Ledger.St, List.map_set]

/-- A request in flight that is counted for the target. -/
def Counts (target : String) (t : Pc × Option String) : Bool :=
  t.1.inFlight && t.2 = some target

def Ledger.requests (s : Ledger) (target : String) : Nat := s.threads.countP (Counts target)

def Ledger.Accurate (s : Ledger) : Prop := ∀ target, s.impl.packages target = s.requests target

theorem countsOut_pos {m : Impl} {sid : Nat} {target : String}
    (h : m.countsOut sid = some target) : 0 < m.packages target := by
  simp only [Impl.countsOut, Impl.updates] at h
  split at h
  · cases h
  · split at h
    · cases h
    · next stat hstat =>
      split at h
      · next hpos =>
        cases h
        simp only [Impl.packages, hstat, Option.map_some, Option.getD_some]
        simpa using hpos
      · cases h

/-- When a request goes out, the counters stay right exactly when it is counted out for the target
that it has been counted in for. -/
theorem removePackage_counts_iff {m : Impl} {sid : Nat} {counted : Option String} :
    (∀ u, (m.removePackage sid).packages u + (if counted = some u then 1 else 0) = m.packages u) ↔
      counted = m.countsOut sid := by
  simp only [Impl.removePackage_packages]
  constructor
  · intro h
    cases hout : m.countsOut sid with
    | none =>
      cases counted with
      | none => rfl
      | some u =>
        have hu := h u
        simp [hout] at hu
    | some target =>
      have hpos := countsOut_pos hout
      have htarget := h target
      rw [hout, if_pos rfl] at htarget
      by_contra hne
      rw [if_neg hne] at htarget
      omega
  · rintro rfl u
    split_ifs with hu
    · have hpos := countsOut_pos hu
      omega
    · rfl

/-- Which steps keep the counters: a counted request has a Z39.50 response, and goes out for the
target it came in for; and no entry is dropped that counts requests. -/
def Pc.Accounts (m : Impl) (counted : Option String) : Pc → Ev → Prop
  | .move .., .moved _ .notZ3950 => counted = none
  | .removePackage p _ _ _, .go => counted = m.countsOut p.sessionId
  | .finish p _ isClosedFront, .go => ∀ target ∈ m.sessionTarget.lookup p.sessionId,
      (if isClosedFront then m else m.addDead p.sessionId).Drops target → m.packages target = 0
  | _, _ => True

def Accounts (s : Ledger) : Label → Prop
  | .start _ => True
  | .thread i e => ∀ t ∈ s.threads[i]?, t.1.Accounts s.impl t.2 e

section Step

variable {s s' : Ledger}

theorem accurate_start (h : s.Accurate) (p : Package) :
    ({ s with threads := s.threads ++ [(entry p, none)] } : Ledger).Accurate := by
  intro target
  have hnone : Counts target (entry p, none) = false := by simp [Counts]
  rw [Ledger.requests, List.countP_append, List.countP_singleton, hnone]
  exact h target

/-- What one thread changes. -/
theorem accurate_set_iff (h : s.Accurate) {i : Nat} {t t' : Pc × Option String} {m : Impl}
    (hi : s.threads[i]? = some t) :
    Ledger.Accurate ⟨m, s.threads.set i t'⟩ ↔
      ∀ u, m.packages u + (if Counts u t then 1 else 0) =
        s.impl.packages u + if Counts u t' then 1 else 0 := by
  obtain ⟨hlt, rfl⟩ := List.getElem?_eq_some_iff.mp hi
  refine forall_congr' fun u => ?_
  have hle : (if Counts u s.threads[i] = true then 1 else 0) ≤ s.threads.countP (Counts u) :=
    List.boole_getElem_le_countP hlt
  rw [h u, Ledger.requests, Ledger.requests, List.countP_set hlt]
  simp only
  omega

theorem counts_of_not_inFlight {u : String} {pc : Pc} {counted : Option String}
    (h : pc.inFlight = false) : Counts u (pc, counted) = false := by
  rw [Counts, h, Bool.false_and]

theorem counts_move {u : String} {p : Package} {f : Bool} {counted : Option String} :
    Counts u (.move p f, counted) = decide (counted = some u) :=
  Bool.true_and _

theorem counts_removePackage {u : String} {p : Package} {r : Response} {f b : Bool}
    {counted : Option String} :
    Counts u (.removePackage p r f b, counted) = decide (counted = some u) :=
  Bool.true_and _

theorem closing_inFlight (p : Package) (r : Response) (f b : Bool) :
    (closing p r f b).inFlight = false := by
  unfold closing
  split <;> rfl

theorem forall_counted_iff {counted : Option String} {n : String → Nat} :
    (∀ u, n u + (if counted = some u then 1 else 0) = n u) ↔ counted = none := by
  constructor
  · intro h
    cases counted with
    | none => rfl
    | some u =>
      have hu := h u
      rw [if_pos rfl] at hu
      omega
  · rintro rfl u
    rfl

theorem finish_counts_iff {m : Impl} {sid : Nat} {front : Bool} :
    (∀ u, ((if front then m else m.addDead sid).removeSession sid).packages u = m.packages u) ↔
      ∀ target ∈ m.sessionTarget.lookup sid,
        (if front then m else m.addDead sid).Drops target → m.packages target = 0 := by
  generalize hm : (if front then m else m.addDead sid) = m1
  have hlookup : m1.sessionTarget = m.sessionTarget := by
    rw [← hm]
    split <;> simp
  have hpackages : ∀ u, m1.packages u = m.packages u := by
    intro u
    rw [← hm]
    split
    · rfl
    · exact Impl.addDead_packages u
  cases hl : m.sessionTarget.lookup sid with
  | none =>
    have hl1 : m1.sessionTarget.lookup sid = none := by rw [hlookup, hl]
    refine iff_of_true (fun u => ?_) (by simp)
    rw [Impl.removeSession_packages_of_none hl1, hpackages]
  | some target =>
    have hl1 : m1.sessionTarget.lookup sid = some target := by rw [hlookup, hl]
    simp only [Impl.removeSession_packages hl1, hpackages, Option.mem_def, Option.some.injEq,
      forall_eq']
    constructor
    · intro h hdrops
      have htarget := h target
      rw [if_pos ⟨rfl, hdrops⟩] at htarget
      exact htarget.symm
    · intro h u
      split_ifs with hu
      · obtain ⟨rfl, hdrops⟩ := hu
        exact (h hdrops).symm
      · rfl

/-- One step of a thread keeps the counters exactly when it meets `Pc.Accounts`. -/
theorem thread_accurate_iff (h : s.Accurate) {i : Nat} {pc pc' : Pc} {counted : Option String}
    {e : Ev} {m : Impl} (hi : s.threads[i]? = some (pc, counted))
    (hs : stepThread s.impl pc e = some (m, pc')) :
    Ledger.Accurate ⟨m, s.threads.set i (pc', pc.countedFor s.impl counted)⟩ ↔
      pc.Accounts s.impl counted e := by
  rw [accurate_set_iff h hi]
  cases pc with
  | choose p vhosts =>
    cases e with
    | moved closed r => cases hs
    | go =>
      simp only [stepThread] at hs
      split at hs <;> cases hs <;> exact iff_of_true (fun u => rfl) trivial
  | initMove p target vhosts =>
    cases e with
    | go => cases hs
    | moved closed r =>
      simp only [stepThread] at hs
      split at hs <;> cases hs <;> exact iff_of_true (fun u => rfl) trivial
  | addSession p target r =>
    cases e with
    | moved closed r' => cases hs
    | go =>
      cases hs
      refine iff_of_true (fun u => ?_) trivial
      rw [Impl.addSession_packages, counts_of_not_inFlight rfl, counts_of_not_inFlight rfl]
  | addPackage p f =>
    cases e with
    | moved closed r => cases hs
    | go =>
      cases hs
      refine iff_of_true (fun u => ?_) trivial
      rw [Impl.addPackage_packages, counts_of_not_inFlight rfl, counts_move, Pc.countedFor]
      by_cases hin : s.impl.countsIn p.sessionId = some u
      · simp [hin]
      · simp [hin]
  | move p f =>
    cases e with
    | go => cases hs
    | moved closed r =>
      cases r with
      | close => cases hs; exact iff_of_true (fun u => rfl) trivial
      | other => cases hs; exact iff_of_true (fun u => rfl) trivial
      | notZ3950 =>
        -- the request leaves without being counted out
        cases hs
        simp only [counts_of_not_inFlight (closing_inFlight _ _ _ _), counts_move,
          Bool.false_eq_true, if_false, decide_eq_true_eq, Nat.add_zero]
        exact forall_counted_iff
  | removePackage p r f b =>
    cases e with
    | moved closed r' => cases hs
    | go =>
      cases hs
      simp only [counts_of_not_inFlight (closing_inFlight _ _ _ _), counts_removePackage,
        Bool.false_eq_true, if_false, decide_eq_true_eq, Nat.add_zero]
      exact removePackage_counts_iff
  | finish p r f =>
    cases e with
    | moved closed r' => cases hs
    | go =>
      cases hs
      exact finish_counts_iff
  | done reply closed => cases e <;> cases hs

theorem countStep_accurate_iff (h : s.Accurate) {a : Label} (hs : countStep s a = some s') :
    s'.Accurate ↔ Accounts s a := by
  cases a with
  | start p =>
    cases hs
    exact iff_of_true (accurate_start h p) trivial
  | thread i e =>
    simp only [countStep] at hs
    split at hs
    · cases hs
    · next pc counted hi =>
      split at hs
      · cases hs
      · next m pc' hstep =>
        cases hs
        simp only [Accounts, hi, Option.mem_def, Option.some.injEq, forall_eq']
        exact thread_accurate_iff h hi hstep

end Step

/-! ## Runs -/

theorem accurate_of_reach {s : Ledger} (h : Reach countStep countInit Accounts s) :
    s.Accurate := by
  refine h.invariant (I := Ledger.Accurate) ?_ fun s a s' hacc hok hs =>
    (countStep_accurate_iff hacc hs).mpr hok
  rintro s rfl target
  simp [Impl.empty, Impl.packages, Ledger.requests]

theorem requests_eq_zero {s : Ledger} (h : ∀ t ∈ s.threads, t.1.inFlight = false)
    (target : String) : s.requests target = 0 := by
  rw [Ledger.requests, List.countP_eq_zero]
  intro t ht
  rw [Counts, h t ht]
  simp

/-- In every state reached by steps that meet `Accounts`, every `packages` counter is the number of
requests that were counted in for its target and are in flight, so it is 0 when there are none; and
the next step keeps this exactly when it meets `Accounts` too. -/
theorem packages_accurate {s : Ledger} (h : Reach countStep countInit Accounts s) :
    (∀ target, s.impl.packages target = s.requests target) ∧
    ((∀ t ∈ s.threads, t.1.inFlight = false) → ∀ target, s.impl.packages target = 0) ∧
    ∀ a s', countStep s a = some s' →
      ((∀ target, s'.impl.packages target = s'.requests target) ↔ Accounts s a) := by
  have hacc := accurate_of_reach h
  exact ⟨hacc, fun hidle target => (hacc target).trans (requests_eq_zero hidle target),
    fun a s' hs => countStep_accurate_iff hacc hs⟩

instance (m : Impl) (counted : Option String) :
    ∀ (pc : Pc) (e : Ev), Decidable (pc.Accounts m counted e)
  | .move .., .moved _ .notZ3950 => inferInstanceAs (Decidable (counted = none))
  | .removePackage p _ _ _, .go =>
    inferInstanceAs (Decidable (counted = m.countsOut p.sessionId))
  | .finish p _ isClosedFront, .go =>
    inferInstanceAs (Decidable (∀ target ∈ m.sessionTarget.lookup p.sessionId,
      (if isClosedFront then m else m.addDead p.sessionId).Drops target → m.packages target = 0))
  | .move .., .go | .move .., .moved _ .close | .move .., .moved _ .other
  | .removePackage .., .moved .. | .finish .., .moved .. | .choose .., _ | .initMove .., _
  | .addSession .., _ | .addPackage .., _ | .done .., _ => isTrue trivial

instance (s : Ledger) : ∀ a : Label, Decidable (Accounts s a)
  | .start _ => isTrue trivial
  | .thread i e => inferInstanceAs (Decidable (∀ t ∈ s.threads[i]?, t.1.Accounts s.impl t.2 e))

/-- A session on a target, and a request of it that is on its way. -/
def oneRequest : List Label :=
  [.start ⟨1, false, .init ["a"]⟩, .thread 0 .go, .thread 0 (.moved false .other), .thread 0 .go,
    .start ⟨1, false, .other⟩, .thread 1 .go]

theorem packages_accurate_one : ∃ s : Ledger, s.impl.packages "a" = 1 ∧ s.requests "a" = 1 := by
  have hinit : countInit ⟨Impl.empty, []⟩ := rfl
  have hok : RunOk countStep Accounts ⟨Impl.empty, []⟩ oneRequest := by decide
  have hrun : (run countStep ⟨Impl.empty, []⟩ oneRequest).any
      (fun s => s.impl.packages "a" = 1) := by decide
  obtain ⟨s, hs, hp⟩ := Reach.exists_of_run hinit hok hrun
  have hone : s.impl.packages "a" = 1 := by simpa using hp
  exact ⟨s, hone, ((packages_accurate hs).1 "a").symm.trans hone⟩

/-- The request comes back without a response. -/
def noResponse : List Label := oneRequest ++ [.thread 1 (.moved false .notZ3950)]

/-- The request comes back, and its target counts it still. -/
theorem noResponse_leaks :
    ¬ ∀ s, Reach countStep countInit Any s → (∀ t ∈ s.threads, t.1.inFlight = false) →
      ∀ target, s.impl.packages target = 0 := by
  intro h
  have hinit : countInit ⟨Impl.empty, []⟩ := rfl
  have hrun : (run countStep ⟨Impl.empty, []⟩ noResponse).any (fun s =>
      (∀ t ∈ s.threads, t.1.inFlight = false) ∧ s.impl.packages "a" ≠ 0) := by
    decide
  obtain ⟨s, hs, hp⟩ := Reach.exists_of_run hinit (runOk_any _ _) hrun
  simp only [decide_eq_true_eq] at hp
  exact hp.2 (h s hs hp.1 "a")

end LoadBalance
end Metaproxy
