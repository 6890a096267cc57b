import Metaproxy.SessionShared.Ownership

/-!
# SessionShared.Limit

The limit of sessions in a class. Each of the three callers of `create_backend` decides in one
locked section, and the instance is added in another one; inits under way are not counted, and
`Rep::init` and `get_backend` do not ask for the limit. When `create_backend` is called only while
instances and inits under way together are below the limit (`WithinLimit`), it is kept; from a call
beyond it, the targets need only accept for the limit to be exceeded (`session_limit`).
-/

namespace Metaproxy
namespace SessionShared

open Lib BackendClass

variable {cfg : Config} {s s' : St} {e : Label} {client : Client} {a a' : ClassState}
  {bc bc' : BackendClass} {v v' : View} {now : Time} {fresh : Nat}

/-! ## When `create_backend` is called -/

/-- `get_set` finds no instance, and is not out of sessions. -/
def needsBackend (cfg : Config) (now : Time) (bc : BackendClass) (g : GetSet) : Bool :=
  (if cfg.optimizeSearch then
    firstWith (similar g.databases g.query g.request.wantedSearchInfo) bc.backendList
  else none).isNone &&
    (overrideSet cfg now bc g.databases g.outOfSessions).isNone && !g.outOfSessions

/-- The locked section ends with a call of `create_backend`. -/
def callsCreate (cfg : Config) (now : Time) (bc : BackendClass) : Pc → Bool
  | .init _ => bc.noSucceeded = 0
  | .getSet g =>
    needsBackend cfg now bc { g with outOfSessions := bc.backendList.length ≥ cfg.sessionMax }
  | .wait g => needsBackend cfg now bc g
  | .scan => bc.leastRecentlyUsed.isNone
  | _ => false

/-- Instances, and inits under way. -/
def BackendClass.sessions (bc : BackendClass) : Nat := bc.backendList.length + bc.creating.length

/-- `create_backend` is called only while there is room for another session. -/
def WithinLimit (cfg : Config) (s : St) : Label → Prop
  | .thread client .go => ∀ f ∈ (s.threads client).frontend,
      callsCreate cfg s.clock (s.classes f.backendClass) (s.threads client).pc = true →
      (s.classes f.backendClass).sessions < cfg.sessionMax
  | _ => True

instance (cfg : Config) (s : St) : (e : Label) → Decidable (WithinLimit cfg s e)
  | .thread _ .go => inferInstanceAs (Decidable (∀ f ∈ _, _ → _))
  | .thread _ (.initAnswered _) | .thread _ (.searched _) | .thread _ (.cached _)
  | .thread _ (.presented _) | .thread _ (.scanned ..) => isTrue trivial
  | .clock _ | .request _ _ | .worker => isTrue trivial

theorem getSetStep_create {f : Frontend} {g : GetSet}
    (h : (getSetStep cfg now client bc f g).pc.view = .creating) :
    needsBackend cfg now bc g = true := by
  unfold getSetStep at h
  unfold needsBackend
  split at h
  · split at h <;> cases h
  · rename_i hnone
    rw [hnone]
    unfold overrideStep at h
    split at h
    · cases h
    · cases h
    · rename_i hover
      rw [hover]
      split at h
      · simp only [Pc.view, GetSet.serving] at h
        cases h
      · rename_i hout
        simpa using hout

theorem callsCreate_attempt {pc : Pc} {g : GetSet} (h : pc.attempt cfg bc = some g) :
    callsCreate cfg now bc pc = needsBackend cfg now bc g := by
  unfold Pc.attempt at h
  split at h <;> cases h <;> rfl

theorem elim_view {b : Option InstanceId} {w : InstanceId → View} (h : ∀ i, w i ≠ .creating) :
    b.elim View.away w ≠ .creating := by
  cases b with
  | none => nofun
  | some i => exact h i

/-- What a step does to the number of sessions of the class. -/
theorem Moves.sessions (h : Moves cfg now fresh client bc v bc' v') :
    (bc'.creating = bc.creating ∧ bc'.backendList.length ≤ bc.backendList.length ∧
      (v' = .creating ↔ v = .creating)) ∨
    (v = .away ∧ v' = .creating ∧ bc' = bc.beginCreate client) ∨
    (v = .creating ∧ v' ≠ .creating ∧ bc'.creating = bc.creating.erase client ∧
      bc'.backendList.length ≤ bc.backendList.length + 1) := by
  have countId_creating (i : InstanceId) : (bc.countId i).creating = bc.creating := by
    unfold countId
    split <;> rfl
  have countId_length (i : InstanceId) :
      (bc.countId i).backendList.length = bc.backendList.length := by
    unfold countId
    split
    · exact List.length_map _
    · rfl
  have held_ne {w : View} {i : InstanceId} (hi : w.held = some i) : w ≠ .creating := by
    rintro rfl
    cases hi
  cases h with
  | quiet hs => exact .inl ⟨hs.creating, by rw [hs.backendList], Iff.rfl⟩
  | giveUp hs hi =>
    exact .inl ⟨hs.creating, by rw [hs.backendList], nofun, fun h => absurd h (held_ne hi)⟩
  | crash hi _ => exact .inl ⟨rfl, Nat.le_refl _, nofun, fun h => absurd h (held_ne hi)⟩
  | beginCreate => exact .inr (.inl ⟨rfl, rfl, rfl⟩)
  | created _ hv' _ hlist _ _ hcreating =>
    refine .inr (.inr ⟨rfl, ?_, hcreating, by simp [hlist]⟩)
    rcases hv' with rfl | rfl <;> nofun
  | notCreated _ _ hlist _ _ hcreating =>
    exact .inr (.inr ⟨rfl, nofun, hcreating, by simp [hlist]⟩)
  | take _ _ => exact .inl ⟨rfl, Nat.le_of_eq (List.length_map _), nofun, nofun⟩
  | found _ _ _ _ _ _ => exact .inl ⟨rfl, Nat.le_of_eq (List.length_map _), nofun, nofun⟩
  | replace _ _ _ _ _ =>
    exact .inl ⟨rfl, Nat.le_of_eq ((List.length_map _).trans (List.length_map _)), nofun, nofun⟩
  | add _ _ _ =>
    exact .inl ⟨countId_creating _,
      Nat.le_of_eq ((List.length_map _).trans (countId_length _)), nofun, nofun⟩
  | choose _ => exact .inl ⟨countId_creating _, Nat.le_of_eq (countId_length _), nofun, nofun⟩
  | timestamp _ => exact .inl ⟨rfl, Nat.le_of_eq (List.length_map _), Iff.rfl⟩
  | send _ _ => exact .inl ⟨rfl, Nat.le_refl _, nofun, nofun⟩
  | push _ _ _ => exact .inl ⟨rfl, Nat.le_of_eq (List.length_map _), nofun, nofun⟩
  | cached => exact .inl ⟨rfl, Nat.le_refl _, nofun, nofun⟩
  | forward => exact .inl ⟨rfl, Nat.le_refl _, nofun, nofun⟩
  | release hi =>
    exact .inl ⟨rfl, Nat.le_of_eq (List.length_map _), nofun, fun h => absurd h (held_ne hi)⟩
  | remove hi =>
    exact .inl ⟨rfl, List.length_filter_le _ _, nofun, fun h => absurd h (held_ne hi)⟩

/-- A step that begins a creation is a call of `create_backend`. -/
theorem threadStep_creating {f : Frontend} {pc : Pc} {o : Outcome} {r : After}
    (h : threadStep cfg now fresh client bc f pc o = some r) (hv : pc.view ≠ .creating)
    (hc : r.pc.view = .creating) : o = .go ∧ callsCreate cfg now bc pc = true := by
  have haway : pc.view = .away := by
    rcases (threadStep_moves h).sessions with ⟨-, -, hiff⟩ | ⟨hv', -, -⟩ | ⟨hv', -⟩
    · exact absurd (hiff.mp hc) hv
    · exact hv'
    · exact absurd hv' hv
  rcases threadStep_away h haway with ⟨g, hg, rfl, rfl⟩ | ⟨rfl, -, ⟨req, rfl, hnone⟩ | ⟨rfl, hnone⟩⟩ |
    hstay | ⟨i, hi⟩
  · rw [callsCreate_attempt hg]
    exact ⟨rfl, getSetStep_create hc⟩
  · exact ⟨rfl, decide_eq_true hnone⟩
  · exact ⟨rfl, by simp [callsCreate, hnone]⟩
  · rw [hstay] at hc
    cases hc
  · rw [hi] at hc
    cases hc

/-! ## Inits under way -/

/-- `creating` has the clients whose `create_backend` waits for its answer. -/
structure Underway (a : ClassState) : Prop where
  nodup : a.backendClass.creating.Nodup
  mem : ∀ client, client ∈ a.backendClass.creating ↔ a.views client = .creating

theorem underway_new (h : a.New) : Underway a := by
  obtain ⟨⟨key, hbc⟩, hviews⟩ := h
  refine ⟨by simp [hbc, BackendClass.new], fun client => ?_⟩
  simp [hbc, BackendClass.new, hviews client]

/-- The views after a move, if the others agree with `creating`. -/
theorem underway_moved {creating : List Client} (hn : bc.creating.Nodup)
    (hmem : ∀ client', client' ∈ creating ↔ a.views client' = .creating)
    (hothers : ∀ client', client' ≠ client → (client' ∈ bc.creating ↔ client' ∈ creating))
    (hme : client ∈ bc.creating ↔ v = .creating) : Underway (a.moved client bc v) := by
  refine ⟨hn, fun client' => ?_⟩
  simp only
  by_cases hc : client' = client
  · subst hc
    rw [Function.update_self]
    exact hme
  · rw [Function.update_of_ne hc, ← hmem client']
    exact hothers client' hc

theorem underway_move (h : Underway a)
    (hm : Moves cfg a.clock a.fresh client a.backendClass (a.views client) bc v) :
    Underway (a.moved client bc v) := by
  rcases hm.sessions with ⟨hsame, -, hiff⟩ | ⟨haway, rfl, rfl⟩ | ⟨hmine, hne, herase, -⟩
  · refine underway_moved (hsame ▸ h.nodup) h.mem (fun _ _ => by rw [hsame]) ?_
    rw [hsame, h.mem client, hiff]
  · have hnot : client ∉ a.backendClass.creating := by
      rw [h.mem client, haway]
      nofun
    refine underway_moved (List.nodup_cons.mpr ⟨hnot, h.nodup⟩) h.mem (fun client' hc => ?_) ?_
    · simp [beginCreate, hc]
    · simp [beginCreate]
  · refine underway_moved (herase ▸ h.nodup.erase client) h.mem (fun client' hc => ?_) ?_
    · rw [herase]
      exact List.mem_erase_of_ne hc
    · rw [herase]
      exact ⟨fun hmem => absurd hmem h.nodup.not_mem_erase, fun hv => absurd hv hne⟩

theorem underway_step (h : Underway a) (hs : ClassStep cfg a a') : Underway a' := by
  cases hs with
  | rest hsame hviews _ =>
    refine ⟨hsame.creating ▸ h.nodup, fun client => ?_⟩
    rw [hsame.creating, hviews]
    exact h.mem client
  | move client hm => exact underway_move h hm
  | expire now => exact ⟨h.nodup, h.mem⟩

theorem underway_of_reach {ok : St → Label → Prop} (h : Reach (step cfg) init ok s) :
    ∀ c < s.made, Underway (s.classAt c) :=
  classInvariant (fun _ => underway_new) (fun _ _ ha hs => underway_step ha hs) h

/-! ## The limit is kept -/

/-- Inits under way are counted as sessions, so only a call of `create_backend` adds one. -/
theorem sessions_step {c : Nat} (hu : Underway (s.classAt c))
    (hle : (s.classes c).sessions ≤ cfg.sessionMax) (hok : WithinLimit cfg s e)
    (hat : StepAt cfg s e s' c) : (s'.classes c).sessions ≤ cfg.sessionMax := by
  unfold BackendClass.sessions at hle ⊢
  cases hat with
  | rest hsame _ _ =>
    rw [hsame.backendList, hsame.creating]
    exact hle
  | expire n now k _ _ _ heq =>
    have hbc : s'.classes c = (s.classes c).expireInstances cfg now s.clock :=
      congrArg ClassState.backendClass heq
    have hlen : ((s.classes c).expireInstances cfg now s.clock).backendList.length ≤
        (s.classes c).backendList.length := List.length_filter_le _ _
    have hcreating : ((s.classes c).expireInstances cfg now s.clock).creating =
        (s.classes c).creating := rfl
    rw [hbc, hcreating]
    omega
  | thread client o f r he hts hc heq =>
    subst he
    subst hc
    have hbc : s'.classes f.backendClass = r.backendClass := congrArg ClassState.backendClass heq
    rw [hbc]
    rcases (threadStep_moves hts.step).sessions with ⟨hsame, hlen, -⟩ | ⟨haway, hnew, hbegin⟩ |
      ⟨hmine, -, herase, hlen⟩
    · rw [hsame]
      omega
    · obtain ⟨rfl, hcall⟩ := threadStep_creating hts.step (by rw [haway]; nofun) hnew
      have hlt : (s.classes f.backendClass).sessions < cfg.sessionMax :=
        hok f hts.frontend hcall
      unfold BackendClass.sessions at hlt
      rw [hbegin]
      simp only [beginCreate, List.length_cons]
      omega
    · have hmem : client ∈ (s.classes f.backendClass).creating := by
        refine (hu.mem client).mpr ?_
        rw [← hmine]
        exact viewOf_own hts.frontend
      have hpos := List.length_pos_of_mem hmem
      rw [herase, List.length_erase_of_mem hmem]
      omega

theorem sessions_of_reach (h : Reach (step cfg) init (WithinLimit cfg) s) :
    ∀ c < s.made, (s.classes c).sessions ≤ cfg.sessionMax := by
  refine everyClass (I := fun a => a.backendClass.sessions ≤ cfg.sessionMax) (fun a hnew => ?_)
    (fun s e s' c hr hc hok hs hat hle =>
      sessions_step (underway_of_reach hr c hc) hle hok hat) h
  obtain ⟨⟨key, hbc⟩, -⟩ := hnew
  simp [hbc, BackendClass.sessions, BackendClass.new]

/-! ## From a call beyond the limit -/

theorem createdStep_backendClass {f : Frontend} {c : Creator} {o : InitOutcome} :
    (createdStep now fresh client bc f c o).backendClass = bc.createdBackend client fresh now o := by
  unfold createdStep
  simp only
  split <;> cases c <;> rfl

theorem callsCreate_begin {f : Frontend} {pc : Pc} {r : After}
    (h : threadStep cfg now fresh client bc f pc .go = some r)
    (hcall : callsCreate cfg now bc pc = true) : r.backendClass = bc.beginCreate client := by
  have attempt (g : GetSet) (hneeds : needsBackend cfg now bc g = true) :
      (getSetStep cfg now client bc f g).backendClass = bc.beginCreate client := by
    unfold needsBackend at hneeds
    obtain ⟨hneeds, hout⟩ := Bool.and_eq_true_iff.mp hneeds
    obtain ⟨hsim, hover⟩ := Bool.and_eq_true_iff.mp hneeds
    have hout' : g.outOfSessions = false := by simpa using hout
    unfold getSetStep overrideStep
    rw [Option.isNone_iff_eq_none.mp hsim, Option.isNone_iff_eq_none.mp hover]
    simp only [hout', Bool.false_eq_true, if_false]
  unfold callsCreate at hcall
  split at hcall
  case h_1 =>
    simp only [threadStep] at h
    rw [if_pos (of_decide_eq_true hcall)] at h
    cases h
    rfl
  case h_2 =>
    cases h
    exact attempt _ hcall
  case h_3 =>
    cases h
    exact attempt _ hcall
  case h_4 =>
    simp only [threadStep] at h
    rw [Option.isNone_iff_eq_none.mp hcall] at h
    cases h
    rfl
  case h_5 => cases hcall

/-- The init of a client that is under way is sent, if it was not, and the target accepts. -/
theorem accept_one (cfg : Config) {c : Nat} (hu : Underway (s.classAt c))
    (hmem : client ∈ (s.classes c).creating) :
    ∃ es s', run (step cfg) s es = some s' ∧ s'.made = s.made ∧
      (s'.classes c).backendList.length = (s.classes c).backendList.length + 1 ∧
      (s'.classes c).creating = (s.classes c).creating.erase client := by
  have hview : (s.threads client).viewOf c = .creating := (hu.mem client).mp hmem
  obtain ⟨f, hf, hc⟩ : ∃ f, (s.threads client).frontend = some f ∧ f.backendClass = c := by
    unfold Thread.viewOf at hview
    split at hview
    · rename_i f hf
      split at hview
      · rename_i hc
        exact ⟨f, hf, hc⟩
      · cases hview
    · cases hview
  subst hc
  rw [viewOf_own hf] at hview
  -- from `initMove` on, one accepting answer is enough
  have answered {s : St} {cr : Creator} (hf : (s.threads client).frontend = some f)
      (hpc : (s.threads client).pc = .initMove cr) :
      ∃ s', step cfg s (.thread client (.initAnswered (accepts true))) = some s' ∧
        s'.made = s.made ∧
        (s'.classes f.backendClass).backendList.length =
          (s.classes f.backendClass).backendList.length + 1 ∧
        (s'.classes f.backendClass).creating =
          (s.classes f.backendClass).creating.erase client := by
    have hspec := createdBackend_spec (s.classes f.backendClass) client s.fresh s.clock
      (accepts true)
    obtain ⟨s', hs, hts⟩ := stepThread_of_step cfg (o := .initAnswered (accepts true)) hf
      (by rw [hpc]; rfl)
    refine ⟨s', hs, by rw [hts.state]; rfl, ?_, ?_⟩
    · rw [hts.state]
      simp only [Function.update_self, createdStep_backendClass]
      rw [(hspec.2.2.2.1 rfl).1, List.length_append, List.length_singleton]
    · rw [hts.state]
      simp only [Function.update_self, createdStep_backendClass]
      exact hspec.2.2.1
  cases hpc : (s.threads client).pc with
  | initMove cr =>
    obtain ⟨s', hs, hmade, hlen, hcreating⟩ := answered hf hpc
    exact ⟨[_], s', by rw [run, hs]; rfl, hmade, hlen, hcreating⟩
  | create cr =>
    obtain ⟨s1, h1, hts⟩ := stepThread_of_step cfg (o := .go) hf (by rw [hpc]; rfl)
    have hthread : s1.threads client =
        ⟨some f, .initMove cr, none.or (s.threads client).response⟩ := by
      rw [hts.state]
      simp [St.setThread]
    have hclass : s1.classes f.backendClass = (s.classes f.backendClass).countInit := by
      rw [hts.state]
      simp
    obtain ⟨s', hs, hmade, hlen, hcreating⟩ :=
      answered (by rw [hthread]) (show (s1.threads client).pc = .initMove cr by rw [hthread])
    refine ⟨[.thread client .go, _], s', by rw [run, step, h1, Option.bind_some, run, hs]; rfl,
      by rw [hmade, hts.state]; rfl, ?_, ?_⟩
    · rw [hlen, hclass]
      rfl
    · rw [hcreating, hclass]
      rfl
  | _ =>
    rw [hpc] at hview
    first
      | cases hview
      | exact absurd hview (elim_view fun i hi => by cases hi)
      | (simp only [Pc.view, GetSet.serving] at hview; split at hview <;> cases hview)

/-- When the targets accept all inits that are under way, all of them become instances. -/
theorem accept_all {c : Nat} (hr : Reach (step cfg) init Any s) (hc : c < s.made) :
    ∃ es s', run (step cfg) s es = some s' ∧ c < s'.made ∧
      (s'.classes c).backendList.length = (s.classes c).sessions := by
  generalize hn : (s.classes c).creating.length = n
  induction n generalizing s with
  | zero =>
    refine ⟨[], s, rfl, hc, ?_⟩
    unfold BackendClass.sessions
    omega
  | succ n ih =>
    have hpos : 0 < (s.classes c).creating.length := by omega
    obtain ⟨client, hmem⟩ := List.exists_mem_of_length_pos hpos
    obtain ⟨es, s1, hrun, hmade, hlen, hcreating⟩ :=
      accept_one cfg (underway_of_reach hr c hc) hmem
    have hr1 := hr.of_run (runOk_any s es) hrun
    have hn1 : (s1.classes c).creating.length = n := by
      rw [hcreating, List.length_erase_of_mem hmem]
      omega
    obtain ⟨es', s', hrun', hc', hlen'⟩ := ih hr1 (by omega) hn1
    refine ⟨es ++ es', s', by rw [run_append, hrun]; exact hrun', hc', ?_⟩
    rw [hlen']
    unfold BackendClass.sessions
    omega

/-- In every run in which `create_backend` is called only below the limit, no class has more
instances than `sessionMax`; and after a call that is not, a class has more as soon as the targets
accept the inits under way. -/
theorem session_limit (h : Reach (step cfg) init (WithinLimit cfg) s) :
    (∀ c < s.made, (s.classes c).backendList.length ≤ cfg.sessionMax) ∧
    ∀ e s', step cfg s e = some s' → ¬ WithinLimit cfg s e →
      ∃ es s'', run (step cfg) s' es = some s'' ∧
        ∃ c < s''.made, cfg.sessionMax < (s''.classes c).backendList.length := by
  refine ⟨fun c hc => ?_, fun e s' hs hok => ?_⟩
  · have hle := sessions_of_reach h c hc
    unfold BackendClass.sessions at hle
    omega
  · unfold WithinLimit at hok
    split at hok
    · rename_i client
      simp only [not_forall, exists_prop, Nat.not_lt] at hok
      obtain ⟨f', hf', hcall, hfull⟩ := hok
      obtain ⟨f, r, hts⟩ := stepThread_spec hs
      have hsame : f = f' := Option.some.inj (hts.frontend.symm.trans hf')
      subst hsame
      have hc : f.backendClass < s'.made := by
        rw [hts.state]
        exact ((linked_of_reach h).frontend client f hts.frontend).1
      obtain ⟨es, s'', hrun, hmade, hlen⟩ := accept_all (h.any.next trivial hs) hc
      refine ⟨es, s'', hrun, f.backendClass, hmade, ?_⟩
      have hclass : s'.classes f.backendClass = (s.classes f.backendClass).beginCreate client := by
        rw [hts.state]
        simp only [Function.update_self]
        exact callsCreate_begin hts.step hcall
      rw [hlen, hclass]
      unfold BackendClass.sessions at hfull ⊢
      simp only [beginCreate, List.length_cons]
      omega
    · exact absurd trivial hok

def atMost (sessionMax : Nat) : Config := { Config.default with sessionMax }

/-- Two clients init at the same time. -/
def twoInits : List Label :=
  [.request 0 (.init plainInit), .request 1 (.init plainInit)] ++ goes 0 2 ++ goes 1 2 ++
    [.thread 0 (.initAnswered (accepts true)), .thread 1 (.initAnswered (accepts true))]

theorem session_limit_two : ∃ s, Reach (step (atMost 2)) init (WithinLimit (atMost 2)) s ∧
    s.made = 1 ∧ (s.classes 0).backendList.length = 2 ∧
    (s.classes 0).backendList.length ≤ (atMost 2).sessionMax := by
  have hok : RunOk (step (atMost 2)) (WithinLimit (atMost 2)) St.start twoInits := by decide
  have hrun : (run (step (atMost 2)) St.start twoInits).any
      (fun s => s.made = 1 ∧ (s.classes 0).backendList.length = 2) = true := by decide
  obtain ⟨s, hr, hp⟩ := Reach.exists_of_run init_start hok hrun
  obtain ⟨hmade, hlen⟩ := of_decide_eq_true hp
  exact ⟨s, hr, hmade, hlen, (session_limit hr).1 0 (by omega)⟩

/-- Both inits come before the first answer, and both make an instance. -/
theorem twoInits_exceed :
    ¬ ∀ (cfg : Config) (s : St), Reach (step cfg) init Any s →
      ∀ c < s.made, (s.classes c).backendList.length ≤ cfg.sessionMax := by
  intro h
  have hrun : (run (step (atMost 1)) St.start twoInits).any
      (fun s => s.made = 1 ∧ (s.classes 0).backendList.length = 2) = true := by decide
  obtain ⟨s, hr, hp⟩ := Reach.exists_of_run init_start (runOk_any _ _) hrun
  obtain ⟨hmade, hlen⟩ := of_decide_eq_true hp
  have hle := h (atMost 1) s hr 0 (by omega)
  rw [hlen] at hle
  exact absurd hle (by decide)

end SessionShared
end Metaproxy
