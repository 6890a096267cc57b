import Metaproxy.Lib.Greedy
import Metaproxy.LoadBalance.Sessions

/-!
# LoadBalance.Targets

The init loop of `process` by itself: one thread, while the other threads may change the maps in any
way between its steps, so that every step comes with the maps it finds.

* `pick_spec` — the target that is picked is the first one of least cost.
* `initStep_tries_iff` — when one step keeps the loop in order.
* `init_tries` — targets are tried by cost, each entry once, until one does not close, and the
  session is recorded for that one; `init_steps_le` — after at most `2 n + 1` steps it is over.
-/

namespace Metaproxy
namespace LoadBalance

open Lib

/-! ## The pick -/

/-- The empty string is no target. -/
abbrev Given (vhost : String) : Prop := vhost ≠ ""

/-- What `pickFrom` has found in the vhosts before the `i`th. -/
def Best (m : Impl) (before : List String) : Option (Nat × String) → Nat → Prop
  | none, costI => costI = uintMax ∧ ∀ v ∈ before, v = ""
  | some (i, target), costI => costI = m.cost target ∧ before[i]? = some target ∧
      FirstLeast Given m.cost before target (before.eraseIdx i)

theorem FirstLeast.concat {m : Impl} {vhosts : List String} {target v : String} {rest : List String}
    (h : FirstLeast Given m.cost vhosts target rest) (hv : Given v → m.cost target ≤ m.cost v) :
    FirstLeast Given m.cost (vhosts ++ [v]) target (rest ++ [v]) := by
  obtain ⟨before, after, rfl, rfl, hgiven, hbefore, hafter⟩ := h
  refine ⟨before, after ++ [v], by simp, by simp, hgiven, hbefore, fun y hy => ?_⟩
  rcases List.mem_append.mp hy with hy | hy
  · exact hafter y hy
  · rw [List.mem_singleton.mp hy]
    exact hv

theorem pickFrom_best {m : Impl} {vhosts : List String}
    (hcost : ∀ v ∈ vhosts, Given v → m.cost v < uintMax) {before : List String}
    {best : Option (Nat × String)} {costI : Nat} (hbest : Best m before best costI) :
    ∃ costI', Best m (before ++ vhosts) (m.pickFrom vhosts before.length best costI) costI' := by
  induction vhosts generalizing before best costI with
  | nil => exact ⟨costI, by simpa [Impl.pickFrom] using hbest⟩
  | cons v vhosts ih =>
    have hrest : ∀ v' ∈ vhosts, Given v' → m.cost v' < uintMax := fun v' hv' =>
      hcost v' (List.mem_cons_of_mem v hv')
    have hsplit : before ++ v :: vhosts = (before ++ [v]) ++ vhosts := by simp
    have hlength : before.length + 1 = (before ++ [v]).length := by simp
    rw [Impl.pickFrom, hsplit, hlength]
    split
    · next h =>
      -- a new pick, cheaper than all before it
      refine ih hrest ⟨rfl, by simp, ?_⟩
      have herase : (before ++ [v]).eraseIdx before.length = before := by
        rw [List.eraseIdx_append_of_length_le le_rfl]
        simp
      rw [herase]
      refine ⟨before, [], rfl, by simp, h.1, fun y hy hgiven => ?_, by simp⟩
      cases best with
      | none => exact absurd (hbest.2 y hy) hgiven
      | some b =>
        obtain ⟨hcostI, -, hleast⟩ := hbest
        exact lt_of_lt_of_le (hcostI ▸ h.2) (hleast.le hy hgiven)
    · next h =>
      refine ih hrest ?_
      cases best with
      | none =>
        obtain ⟨hcostI, hempty⟩ := hbest
        refine ⟨hcostI, fun y hy => ?_⟩
        rcases List.mem_append.mp hy with hy | hy
        · exact hempty y hy
        · rw [List.mem_singleton.mp hy]
          by_contra hgiven
          exact h ⟨hgiven, hcostI ▸ hcost v List.mem_cons_self hgiven⟩
      | some b =>
        obtain ⟨i, target⟩ := b
        obtain ⟨hcostI, hat, hleast⟩ := hbest
        have hi : i < before.length := (List.getElem?_eq_some_iff.mp hat).1
        refine ⟨hcostI, by rw [List.getElem?_append_left hi, hat], ?_⟩
        rw [List.eraseIdx_append_of_lt_length hi]
        refine FirstLeast.concat hleast fun hgiven => ?_
        by_contra hlt
        exact h ⟨hgiven, by omega⟩

theorem pick_spec {m : Impl} {vhosts : List String}
    (hcost : ∀ v ∈ vhosts, Given v → m.cost v < uintMax) :
    match m.pick vhosts with
    | none => ∀ v ∈ vhosts, v = ""
    | some (i, target) => FirstLeast Given m.cost vhosts target (vhosts.eraseIdx i) := by
  have hstart : Best m [] none uintMax := ⟨rfl, by simp⟩
  obtain ⟨costI, hbest⟩ := pickFrom_best hcost hstart
  rw [List.nil_append, List.length_nil] at hbest
  rw [Impl.pick]
  cases hpick : m.pickFrom vhosts 0 none uintMax with
  | none =>
    rw [hpick] at hbest
    exact hbest.2
  | some b =>
    rw [hpick] at hbest
    exact hbest.2.2

/-! ## The record -/

/-- The session is recorded for the target, and nothing else changes. -/
structure Records (sessionId : Nat) (target : String) (m m' : Impl) : Prop where
  session : m'.sessionTarget.lookup sessionId = some target
  sessions : ∀ sid, sid ≠ sessionId → m'.sessionTarget.lookup sid = m.sessionTarget.lookup sid
  targets : ∀ u, u ≠ target → m'.targetStat.lookup u = m.targetStat.lookup u
  counted : m.sessions target < uintMax → m'.sessions target = m.sessions target + 1

/-- A session that is known keeps the target it has. -/
theorem addSession_records_iff {m : Impl} {sid : Nat} {target : String} :
    Records sid target m (m.addSession sid target) ↔
      m.sessionTarget.lookup sid = none ∨ m.sessionTarget.lookup sid = some target := by
  constructor
  · intro h
    cases hl : m.sessionTarget.lookup sid with
    | none => exact .inl rfl
    | some t =>
      have hsession := h.session
      simp only [Impl.addSession, hl] at hsession
      exact .inr hsession
  · intro h
    refine ⟨?_, fun sid' hsid => ?_, fun u hu => ?_, fun hlt => ?_⟩
    · rcases h with hl | hl
      · simp [Impl.addSession, hl]
      · simp only [Impl.addSession, hl]
    · rcases h with hl | hl
      · simp only [Impl.addSession, hl]
        exact AList.lookup_insert_ne hsid
      · simp only [Impl.addSession, hl]
    · simp only [Impl.addSession]
      split
      · exact AList.lookup_insert_ne hu
      · split
        · exact AList.lookup_insert_ne hu
        · rfl
    · rw [Impl.addSession_sessions, if_pos ⟨rfl, hlt⟩]

/-! ## The loop -/

/-- A thread in the init loop, with what it has done. -/
structure InitRun where
  pc : Pc
  choices : List (Choice String)
  /-- Which of the targets tried have closed, as far as that is known. -/
  closes : List Bool
  /-- The entries that have not been tried. -/
  left : List String
  /-- The maps before and after every step of the thread. -/
  maps : List (Impl × Impl)

def InitRun.start (p : Package) (vhosts : List String) : InitRun :=
  ⟨.choose p vhosts, [], [], vhosts, []⟩

/-- One step of the thread, in the maps it finds. -/
def initStep (s : InitRun) (a : Impl × Ev) : Option InitRun :=
  (stepThread a.1 s.pc a.2).map fun r =>
    { pc := r.2
      choices :=
        match s.pc, r.2 with
        | .choose .., .initMove _ target _ => s.choices ++ [⟨a.1.cost, target⟩]
        | _, _ => s.choices
      closes :=
        match a.2 with
        | .moved closed _ => s.closes ++ [closed]
        | .go => s.closes
      left :=
        match r.2 with
        | .initMove _ _ vhosts => vhosts
        | _ => s.left
      maps := s.maps ++ [(a.1, r.1)] }

def noTargets : Reply := .temporarySystemError "load_balance: no available targets"

/-- All targets that were tried have closed. -/
def InitRun.Failed (s : InitRun) : Prop := s.closes = List.replicate s.choices.length true

/-- The last one tried is `target`, and those before it have closed. -/
def InitRun.Last (s : InitRun) (target : String) (closes : List Bool) : Prop :=
  ∃ choices c, s.choices = choices ++ [c] ∧ c.taken = target ∧
    s.closes = List.replicate choices.length true ++ closes

def Unchanged (maps : List (Impl × Impl)) : Prop := ∀ m ∈ maps, m.2 = m.1

/-- The loop of package `p` is in order: the entries tried are those of least cost, one after the
other, and from where the thread is it can be said which of them closed, and what it wrote. -/
structure Tries (p : Package) (vhosts : List String) (s : InitRun) : Prop where
  greedy : Greedy Given vhosts s.choices s.left
  place :
    match s.pc with
    | .choose p' rest => p' = p ∧ rest = s.left ∧ s.Failed ∧ Unchanged s.maps
    | .initMove p' target rest => p' = p ∧ rest = s.left ∧ s.Last target [] ∧ Unchanged s.maps
    | .addSession p' target _ => p' = p ∧ s.Last target [false] ∧ Unchanged s.maps
    | .done (.forwarded _) closed => closed = false ∧ ∃ target maps m, s.Last target [false] ∧
        s.maps = maps ++ [m] ∧ Unchanged maps ∧ Records p.sessionId target m.1 m.2
    | .done reply closed => reply = noTargets ∧ closed = true ∧ (∀ v ∈ s.left, v = "") ∧
        s.Failed ∧ Unchanged s.maps
    | _ => False

/-- The maps that a step finds give every target a cost below the maximum. -/
def CostsFit (vhosts : List String) (m : Impl) : Prop := ∀ v ∈ vhosts, Given v → m.cost v < uintMax

/-- A target does not stay open in a session that was closed before, and a session is recorded that
is not yet recorded for another target. -/
def Pc.InOrder (p : Package) (m : Impl) : Pc → Ev → Prop
  | .initMove .., .moved closed _ => p.isClosed = true → closed = true
  | .addSession _ target _, .go => m.sessionTarget.lookup p.sessionId = none ∨
      m.sessionTarget.lookup p.sessionId = some target
  | _, _ => True

def InOrder (p : Package) (s : InitRun) (a : Impl × Ev) : Prop := s.pc.InOrder p a.1 a.2

instance (p : Package) (m : Impl) : ∀ (pc : Pc) (e : Ev), Decidable (pc.InOrder p m e)
  | .initMove .., .moved closed _ =>
    inferInstanceAs (Decidable (p.isClosed = true → closed = true))
  | .addSession _ target _, .go =>
    inferInstanceAs (Decidable (m.sessionTarget.lookup p.sessionId = none ∨
      m.sessionTarget.lookup p.sessionId = some target))
  | .initMove .., .go | .addSession .., .moved .. | .choose .., _ | .addPackage .., _ | .move .., _
  | .removePackage .., _ | .finish .., _ | .done .., _ => isTrue trivial

section Step

variable {p : Package} {vhosts : List String} {s s' : InitRun} {m : Impl} {e : Ev}

theorem unchanged_concat {maps : List (Impl × Impl)} {m : Impl × Impl} :
    Unchanged (maps ++ [m]) ↔ Unchanged maps ∧ m.2 = m.1 := by
  simp [Unchanged, or_imp, forall_and]

theorem tries_start (p : Package) (vhosts : List String) : Tries p vhosts (.start p vhosts) :=
  ⟨.nil, rfl, rfl, rfl, by simp [Unchanged, InitRun.start]⟩

/-- The step that picks a target, or gives up. -/
theorem tries_choose {rest : List String} (h : Tries p vhosts s) (hpc : s.pc = .choose p rest)
    (hcost : CostsFit vhosts m) (hs : initStep s (m, .go) = some s') : Tries p vhosts s' := by
  obtain ⟨hgreedy, hplace⟩ := h
  rw [hpc] at hplace
  obtain ⟨-, rfl, hfailed, hmaps⟩ := hplace
  have hsub : ∀ v ∈ s.left, v ∈ vhosts := fun v hv =>
    hgreedy.perm.subset (List.mem_append_right _ hv)
  have hpick := pick_spec fun v hv => hcost v (hsub v hv)
  simp only [initStep, hpc, stepThread] at hs
  split at hs
  · next hnone =>
    rw [hnone] at hpick
    cases hs
    exact ⟨hgreedy, rfl, rfl, hpick, hfailed, unchanged_concat.mpr ⟨hmaps, rfl⟩⟩
  · next i target hsome =>
    rw [hsome] at hpick
    cases hs
    refine ⟨hgreedy.snoc hpick, rfl, rfl, ⟨s.choices, _, rfl, rfl, ?_⟩,
      unchanged_concat.mpr ⟨hmaps, rfl⟩⟩
    rw [List.append_nil]
    exact hfailed

theorem replicate_concat (n : Nat) : List.replicate n true ++ [true] = List.replicate (n + 1) true :=
  List.replicate_succ'.symm

/-- The step that ends an attempt. -/
theorem tries_moved_iff {target : String} {rest : List String} (h : Tries p vhosts s)
    (hpc : s.pc = .initMove p target rest) {closed : Bool} {r : Response}
    (hs : initStep s (m, .moved closed r) = some s') :
    Tries p vhosts s' ↔ (p.isClosed = true → closed = true) := by
  obtain ⟨hgreedy, hplace⟩ := h
  rw [hpc] at hplace
  obtain ⟨-, rfl, ⟨choices, c, hchoices, htarget, hcloses⟩, hmaps⟩ := hplace
  rw [List.append_nil] at hcloses
  simp only [initStep, hpc, stepThread] at hs
  split at hs
  · next hclosed =>
    cases hs
    constructor
    · rintro ⟨-, -, -, hfailed, -⟩ -
      simp only [InitRun.Failed, hchoices, hcloses, List.length_append, List.length_singleton,
        ← replicate_concat] at hfailed
      exact List.head_eq_of_cons_eq (List.append_cancel_left hfailed)
    · intro himp
      have htrue : closed = true := by
        cases hp : p.isClosed with
        | true => exact himp hp
        | false => simpa [hp] using hclosed
      refine ⟨hgreedy, rfl, rfl, ?_, unchanged_concat.mpr ⟨hmaps, rfl⟩⟩
      simp only [InitRun.Failed, hchoices, hcloses, htrue, List.length_append,
        List.length_singleton, replicate_concat]
  · next hopen =>
    cases hs
    have hfalse : p.isClosed = false ∧ closed = false := by simpa using hopen
    refine iff_of_true ⟨hgreedy, rfl, ⟨choices, c, hchoices, htarget, ?_⟩,
      unchanged_concat.mpr ⟨hmaps, rfl⟩⟩ (by simp [hfalse.1])
    simp only [hcloses, hfalse.2]

/-- The step that records the session. -/
theorem tries_added_iff {target : String} {r : Response} (h : Tries p vhosts s)
    (hpc : s.pc = .addSession p target r) (hs : initStep s (m, .go) = some s') :
    Tries p vhosts s' ↔ m.sessionTarget.lookup p.sessionId = none ∨
      m.sessionTarget.lookup p.sessionId = some target := by
  obtain ⟨hgreedy, hplace⟩ := h
  rw [hpc] at hplace
  obtain ⟨-, hlast, hmaps⟩ := hplace
  simp only [initStep, hpc, stepThread, Option.map_some, Option.some.injEq] at hs
  subst hs
  rw [← addSession_records_iff]
  constructor
  · rintro ⟨-, -, target', maps, w, ⟨choices', c', hchoices', htarget', -⟩, hw, -, hrecords⟩
    obtain ⟨choices, c, hchoices, htarget, -⟩ := hlast
    have hc : c = c' := by
      have heq := hchoices.symm.trans hchoices'
      exact (List.append_inj' heq rfl).2 |> List.head_eq_of_cons_eq
    have hlastMap : (m, m.addSession p.sessionId target) = w :=
      List.head_eq_of_cons_eq (List.append_inj' hw rfl).2
    rw [← htarget', ← hc, htarget, ← hlastMap] at hrecords
    exact hrecords
  · intro hrecords
    exact ⟨hgreedy, rfl, target, s.maps, _, hlast, rfl, hmaps, hrecords⟩

/-- One step keeps the loop in order exactly when it meets `InOrder`. -/
theorem initStep_tries_iff (h : Tries p vhosts s) (hcost : CostsFit vhosts m)
    (hs : initStep s (m, e) = some s') : Tries p vhosts s' ↔ InOrder p s (m, e) := by
  have hplace := h.place
  unfold InOrder Pc.InOrder
  cases hpc : s.pc with
  | choose p' rest =>
    rw [hpc] at hplace
    obtain ⟨rfl, -⟩ := hplace
    cases e with
    | go => exact iff_of_true (tries_choose h hpc hcost hs) trivial
    | moved closed r => simp [initStep, hpc, stepThread] at hs
  | initMove p' target rest =>
    rw [hpc] at hplace
    obtain ⟨rfl, -⟩ := hplace
    cases e with
    | go => simp [initStep, hpc, stepThread] at hs
    | moved closed r => exact tries_moved_iff h hpc hs
  | addSession p' target r =>
    rw [hpc] at hplace
    obtain ⟨rfl, -⟩ := hplace
    cases e with
    | go => exact tries_added_iff h hpc hs
    | moved closed r' => simp [initStep, hpc, stepThread] at hs
  | done reply closed => simp [initStep, hpc, stepThread] at hs
  | addPackage p' f => rw [hpc] at hplace; exact hplace.elim
  | move p' f => rw [hpc] at hplace; exact hplace.elim
  | removePackage p' r f b => rw [hpc] at hplace; exact hplace.elim
  | finish p' r f => rw [hpc] at hplace; exact hplace.elim

/-- The answer without a target is given exactly when all were tried and have closed. -/
theorem Tries.noTargets_iff (h : Tries p vhosts s) {reply : Reply} {closed : Bool}
    (hpc : s.pc = .done reply closed) :
    reply = noTargets ↔ (∀ v ∈ s.left, v = "") ∧ ∀ c ∈ s.closes, c = true := by
  have hplace := h.place
  rw [hpc] at hplace
  cases reply with
  | forwarded r =>
    obtain ⟨-, target, maps, w, ⟨choices, c, -, -, hcloses⟩, -⟩ := hplace
    refine iff_of_false (by simp [noTargets]) fun hall => ?_
    have hfalse := hall.2 false (by rw [hcloses]; simp)
    cases hfalse
  | temporarySystemError addinfo =>
    obtain ⟨heq, -, hleft, hfailed, -⟩ := hplace
    refine iff_of_true heq ⟨hleft, fun c hc => ?_⟩
    rw [hfailed] at hc
    exact List.eq_of_mem_replicate hc

end Step

/-! ## Termination -/

def Pc.InInit : Pc → Prop
  | .choose .. | .initMove .. | .addSession .. | .done .. => True
  | _ => False

/-- A bound for the steps that a thread in the loop has before it. -/
def Pc.stepsLeft : Pc → Nat
  | .choose _ vhosts => 2 * vhosts.length + 1
  | .initMove _ _ vhosts => 2 * vhosts.length + 2
  | .addSession .. => 1
  | _ => 0

theorem pickFrom_lt {m : Impl} {vhosts : List String} {i : Nat} {best : Option (Nat × String)}
    {costI : Nat} (hbest : ∀ b, best = some b → b.1 < i) :
    ∀ b, m.pickFrom vhosts i best costI = some b → b.1 < i + vhosts.length := by
  induction vhosts generalizing i best costI with
  | nil => exact hbest
  | cons v vhosts ih =>
    intro b hb
    rw [Impl.pickFrom] at hb
    rw [List.length_cons]
    split at hb
    · have := ih (fun b' hb' => by cases hb'; exact Nat.lt_succ_self i) b hb
      omega
    · have := ih (fun b' hb' => Nat.lt_succ_of_lt (hbest b' hb')) b hb
      omega

theorem pick_lt {m : Impl} {vhosts : List String} {i : Nat} {target : String}
    (h : m.pick vhosts = some (i, target)) : i < vhosts.length := by
  have := pickFrom_lt (fun b (hb : none = some b) => by cases hb) (i, target) h
  simpa using this

theorem initStep_stepsLeft {s s' : InitRun} {a : Impl × Ev} (h : s.pc.InInit)
    (hs : initStep s a = some s') : s'.pc.InInit ∧ s'.pc.stepsLeft < s.pc.stepsLeft := by
  obtain ⟨m, e⟩ := a
  simp only [initStep, Option.map_eq_some_iff] at hs
  obtain ⟨⟨m', pc'⟩, hstep, rfl⟩ := hs
  simp only
  cases hpc : s.pc with
  | choose p vhosts =>
    cases e with
    | moved closed r => simp [hpc, stepThread] at hstep
    | go =>
      simp only [hpc, stepThread] at hstep
      split at hstep
      · cases hstep
        exact ⟨trivial, by simp [Pc.stepsLeft]⟩
      · next i target hpick =>
        cases hstep
        have hlt := pick_lt hpick
        simp only [Pc.stepsLeft, List.length_eraseIdx_of_lt hlt]
        exact ⟨trivial, by omega⟩
  | initMove p target vhosts =>
    cases e with
    | go => simp [hpc, stepThread] at hstep
    | moved closed r =>
      simp only [hpc, stepThread] at hstep
      split at hstep <;> cases hstep <;> exact ⟨trivial, by simp [Pc.stepsLeft]⟩
  | addSession p target r =>
    cases e with
    | moved closed r' => simp [hpc, stepThread] at hstep
    | go =>
      simp only [hpc, stepThread, Option.some.injEq, Prod.mk.injEq] at hstep
      rw [← hstep.2]
      exact ⟨trivial, by simp [Pc.stepsLeft]⟩
  | done reply closed => simp [hpc, stepThread] at hstep
  | addPackage p f => rw [hpc] at h; exact h.elim
  | move p f => rw [hpc] at h; exact h.elim
  | removePackage p r f b => rw [hpc] at h; exact h.elim
  | finish p r f => rw [hpc] at h; exact h.elim

theorem init_steps_le {s s' : InitRun} (h : s.pc.InInit) {as : List (Impl × Ev)}
    (hrun : run initStep s as = some s') : as.length ≤ s.pc.stepsLeft := by
  induction as generalizing s with
  | nil => exact Nat.zero_le _
  | cons a as ih =>
    obtain ⟨s1, hs1, hrest⟩ := Option.bind_eq_some_iff.mp hrun
    obtain ⟨hin, hlt⟩ := initStep_stepsLeft h hs1
    have hle := ih hin hrest
    rw [List.length_cons]
    omega

/-- A thread in the loop can go on. -/
theorem initStep_enabled {p : Package} {vhosts : List String} {s : InitRun}
    (h : Tries p vhosts s) (hgoes : ∀ reply closed, s.pc ≠ .done reply closed) (m : Impl) :
    ∃ e s', initStep s (m, e) = some s' := by
  have hplace := h.place
  simp only [initStep, Option.map_eq_some_iff]
  cases hpc : s.pc with
  | choose p' rest =>
    refine ⟨.go, ?_⟩
    simp only [stepThread]
    cases m.pick rest with
    | none => exact ⟨_, _, rfl, rfl⟩
    | some b => exact ⟨_, _, rfl, rfl⟩
  | initMove p' target rest =>
    refine ⟨.moved true .other, _, (m, .choose p' rest), ?_, rfl⟩
    simp [stepThread]
  | addSession p' target r => exact ⟨.go, _, _, rfl, rfl⟩
  | done reply closed => exact absurd hpc (hgoes reply closed)
  | addPackage p' f => rw [hpc] at hplace; exact hplace.elim
  | move p' f => rw [hpc] at hplace; exact hplace.elim
  | removePackage p' r f b => rw [hpc] at hplace; exact hplace.elim
  | finish p' r f => rw [hpc] at hplace; exact hplace.elim

/-! ## The loop is in order -/

/-- The steps that are considered: costs below the maximum, and in order. -/
def TriesOk (p : Package) (vhosts : List String) (s : InitRun) (a : Impl × Ev) : Prop :=
  CostsFit vhosts a.1 ∧ InOrder p s a

def starts (p : Package) (vhosts : List String) (s : InitRun) : Prop := s = .start p vhosts

theorem tries_of_reach {p : Package} {vhosts : List String} {s : InitRun}
    (h : Reach initStep (starts p vhosts) (TriesOk p vhosts) s) : Tries p vhosts s := by
  refine h.invariant (I := Tries p vhosts) ?_ ?_
  · rintro s rfl
    exact tries_start p vhosts
  · rintro s ⟨m, e⟩ s' htries ⟨hcost, horder⟩ hs
    exact (initStep_tries_iff htries hcost hs).mpr horder

/-- In every state that the loop reaches it has tried the targets by cost, each entry at most once,
and gone on only after one that closed; it records the session for the one that does not close. A
step from there keeps this exactly when it is in order; when the thread is done, there was no target
exactly when every entry was tried and closed; and it is done after finitely many steps. -/
theorem init_tries {p : Package} {vhosts : List String} {s : InitRun}
    (h : Reach initStep (starts p vhosts) (TriesOk p vhosts) s) :
    Tries p vhosts s ∧
    (∀ m e s', CostsFit vhosts m → initStep s (m, e) = some s' →
      (Tries p vhosts s' ↔ InOrder p s (m, e))) ∧
    (∀ reply closed, s.pc = .done reply closed →
      (reply = noTargets ↔ (∀ v ∈ s.left, v = "") ∧ ∀ c ∈ s.closes, c = true)) ∧
    ((∀ reply closed, s.pc ≠ .done reply closed) → ∀ m, ∃ e s', initStep s (m, e) = some s') ∧
    ∀ as s', run initStep (.start p vhosts) as = some s' → as.length ≤ 2 * vhosts.length + 1 := by
  have htries := tries_of_reach h
  exact ⟨htries, fun m e s' hcost hs => initStep_tries_iff htries hcost hs,
    fun reply closed hpc => htries.noTargets_iff hpc, initStep_enabled htries,
    fun as s' hrun => init_steps_le (s := .start p vhosts) trivial hrun⟩

instance (vhosts : List String) (m : Impl) : Decidable (CostsFit vhosts m) :=
  inferInstanceAs (Decidable (∀ v ∈ vhosts, Given v → m.cost v < uintMax))

instance (p : Package) (vhosts : List String) (s : InitRun) (a : Impl × Ev) :
    Decidable (TriesOk p vhosts s a) :=
  inferInstanceAs (Decidable (CostsFit vhosts a.1 ∧ s.pc.InOrder p a.1 a.2))

/-- Session 1, its init for three entries. -/
def threeEntries : Package := ⟨1, false, .init ["b", "", "a"]⟩

def vhostsOf : List String := ["b", "", "a"]

/-- A session on target `a`. -/
def onA (sessionId : Nat) : Impl := Impl.empty.addSession sessionId "a"

/-- The cheaper target closes. -/
def secondTarget : List (Impl × Ev) :=
  [(onA 2, .go), (onA 2, .moved true .close), (Impl.empty, .go), (Impl.empty, .moved false .other),
    (onA 2, .go)]

theorem init_tries_second : ∃ s, s.choices.map Choice.taken = ["b", "a"] ∧
    s.pc = .done (.forwarded .other) false ∧ Tries threeEntries vhostsOf s := by
  have hinit : starts threeEntries vhostsOf (.start threeEntries vhostsOf) := rfl
  have hok : RunOk initStep (TriesOk threeEntries vhostsOf) (.start threeEntries vhostsOf)
      secondTarget := by decide
  have hrun : (run initStep (.start threeEntries vhostsOf) secondTarget).any (fun s =>
      s.choices.map Choice.taken = ["b", "a"] ∧ s.pc = .done (.forwarded .other) false) := by
    decide
  obtain ⟨s, hs, hp⟩ := Reach.exists_of_run hinit hok hrun
  simp only [decide_eq_true_eq] at hp
  exact ⟨s, hp.1, hp.2, (init_tries hs).1⟩

/-- A second init of a session on `a` goes to the cheaper target `b`, and is not recorded. -/
def secondInit : List (Impl × Ev) :=
  [(onA 1, .go), (onA 1, .moved false .other), (onA 1, .go)]

theorem secondInit_not_recorded :
    ¬ ∀ s, Reach initStep (starts threeEntries vhostsOf) (fun _ a => CostsFit vhostsOf a.1) s →
      Tries threeEntries vhostsOf s := by
  intro h
  have hinit : starts threeEntries vhostsOf (.start threeEntries vhostsOf) := rfl
  have hok : RunOk initStep (fun _ a => CostsFit vhostsOf a.1) (.start threeEntries vhostsOf)
      secondInit := by
    decide
  have hrun : (run initStep (.start threeEntries vhostsOf) secondInit).any (fun s =>
      s.choices.map Choice.taken = ["b"] ∧ s.pc = .done (.forwarded .other) false ∧
        ∀ m ∈ s.maps, m.2.sessionTarget.lookup 1 = some "a") := by
    decide
  obtain ⟨s, hs, hp⟩ := Reach.exists_of_run hinit hok hrun
  simp only [decide_eq_true_eq] at hp
  obtain ⟨hchoices, hpc, hmaps⟩ := hp
  have hplace := (h s hs).place
  rw [hpc] at hplace
  obtain ⟨-, target, maps, m, ⟨choices, c, hlast, htarget, -⟩, hm, -, hrecords⟩ := hplace
  rw [hlast, List.map_append] at hchoices
  have hsplit : choices.map Choice.taken ++ [c.taken] = [] ++ ["b"] := hchoices
  have htaken : [c.taken] = ["b"] := (List.append_inj' hsplit rfl).2
  have hsession := hrecords.session
  rw [show threeEntries.sessionId = 1 from rfl, hmaps m (by rw [hm]; simp), ← htarget] at hsession
  rw [List.singleton_inj.mp htaken] at hsession
  exact absurd hsession (by decide)

end LoadBalance
end Metaproxy
