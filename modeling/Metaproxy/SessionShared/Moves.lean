import Metaproxy.SessionShared.Rep

/-!
# SessionShared.Moves

What a thread has to do with its backend class, apart from where it is in the code (`View`), and
what one step may do to the class and to this (`Moves`). `threadStep_moves` shows that every step of
a thread is such a move; the invariants of a class are proved from the moves alone.
-/

namespace Metaproxy
namespace SessionShared

open BackendClass

inductive View where
  | away
  | creating
  /-- A new instance, for which no result set id has been chosen. -/
  | fresh (i : InstanceId)
  /-- The id for a new set is chosen. -/
  | reserved (i : InstanceId) (id : ResultSetId)
  /-- The search for a new set has been sent. -/
  | searching (i : InstanceId) (set : BackendSet) (databases : List String) (query : Query)
  /-- A set of the instance serves a request for the databases and the query. -/
  | serving (i : InstanceId) (set : BackendSet) (databases : List String) (query : Query)
  /-- Otherwise in use. -/
  | engaged (i : InstanceId)

/-- The instance in use. -/
def View.held : View → Option InstanceId
  | .away | .creating => none
  | .fresh i | .reserved i _ | .searching i _ _ _ | .serving i _ _ _ | .engaged i => some i

def GetSet.serving (g : GetSet) : View :=
  match g.foundBackend, g.foundSet with
  | some i, some set => .serving i set g.databases g.query
  | _, _ => .away

def Pc.view : Pc → View
  | .create _ | .initMove _ => .creating
  | .created i _ => .fresh i
  | .timestamp i g | .newSet i g => .reserved i g.resultSetId
  | .search i set g => .searching i set g.databases g.query
  | .returned g => g.serving
  | .presentTimestamp b set g => b.elim .away fun i => .serving i set g.databases g.query
  | .presentSend i set g | .present i set g => .serving i set g.databases g.query
  | .scanTimestamp i | .scanMove i => .engaged i
  | .release b _ | .remove b _ => b.elim .away .engaged
  | .idle | .init _ | .initReply _ | .getSet _ | .wait _ | .scan | .crashed => .away

/-- The classes agree in what the moves are about. -/
structure Same (bc bc' : BackendClass) : Prop where
  key : bc'.key = bc.key
  backendList : bc'.backendList = bc.backendList
  namedResultSets : bc'.namedResultSets = bc.namedResultSets
  log : bc'.log = bc.log
  creating : bc'.creating = bc.creating

theorem Same.refl (bc : BackendClass) : Same bc bc := ⟨rfl, rfl, rfl, rfl, rfl⟩

/-- `override_set` may replace the set. -/
def Replaceable (cfg : Config) (now : Time) (outOfSessions : Bool) (set : BackendSet) : Prop :=
  outOfSessions = true ∨ now < set.timeLastUse ∨ now - set.timeLastUse ≥ cfg.resultsetTtl

inductive Moves (cfg : Config) (now : Time) (fresh : Nat) (client : Client) :
    BackendClass → View → BackendClass → View → Prop where
  | quiet {bc bc' v} : Same bc bc' → Moves cfg now fresh client bc v bc' v
  | giveUp {bc bc' v i} : Same bc bc' → v.held = some i →
      Moves cfg now fresh client bc v bc' (.engaged i)
  /-- The assertion of `timestamp` fails. -/
  | crash {bc v i} : v.held = some i → (∀ b, bc.find i = some b → b.inUse = false) →
      Moves cfg now fresh client bc v bc .away
  | beginCreate {bc} : Moves cfg now fresh client bc .away (bc.beginCreate client) .creating
  | created {bc bc' v'} (granted : Bool) : v' = .fresh fresh ∨ v' = .engaged fresh →
      bc'.key = bc.key → bc'.backendList = bc.backendList ++ [⟨fresh, [], true, 0, 0, now⟩] →
      bc'.namedResultSets = granted →
      bc'.log = .acquired client fresh :: .initAnswered granted :: bc.log →
      bc'.creating = bc.creating.erase client →
      Moves cfg now fresh client bc .creating bc' v'
  | notCreated {bc bc'} (granted : Bool) : bc'.key = bc.key →
      bc'.backendList = bc.backendList → bc'.namedResultSets = granted →
      bc'.log = .initAnswered granted :: bc.log → bc'.creating = bc.creating.erase client →
      Moves cfg now fresh client bc .creating bc' .away
  | take {bc b} : b ∈ bc.backendList → b.inUse = false →
      Moves cfg now fresh client bc .away (bc.useBackend client b.id) (.engaged b.id)
  | found {bc b set databases query} (r : Request) :
      b ∈ bc.backendList → b.inUse = false → set ∈ b.sets →
      Util.match_ set.databases databases = true → query = set.query →
      Moves cfg now fresh client bc .away
        ((bc.useBackend client b.id).record (r.answered b.id set now))
        (.serving b.id set databases query)
  | replace {bc b set} (outOfSessions : Bool) :
      b ∈ bc.backendList → b.inUse = false → set ∈ b.sets →
      Replaceable cfg now outOfSessions set →
      Moves cfg now fresh client bc .away
        (((bc.eraseSet b.id set.ptr).record [.replaced b.id set.ptr outOfSessions now]).useBackend
          client b.id)
        (.reserved b.id set.resultSetId)
  | add {bc b} : b ∈ bc.backendList → b.inUse = false → b.sets.length < maxSets cfg bc →
      Moves cfg now fresh client bc .away ((bc.countId b.id).useBackend client b.id)
        (.reserved b.id (nextId bc b))
  | choose {bc b} : b ∈ bc.backendList →
      Moves cfg now fresh client bc (.fresh b.id) (bc.countId b.id) (.reserved b.id (nextId bc b))
  | timestamp {bc v i} : v.held = some i → Moves cfg now fresh client bc v (bc.timestamp i now) v
  | send {bc i set} : set.ptr = fresh → set.timeLastUse = now →
      Moves cfg now fresh client bc (.reserved i set.resultSetId)
        (bc.record [.searchSent i set.resultSetId set.databases set.query])
        (.searching i set set.databases set.query)
  | push {bc i set databases query} (r : Request) (resultSetSize : Int)
      (additionalSearchInfoResponse : Option (List UInt8)) :
      Moves cfg now fresh client bc (.searching i set databases query)
        ((bc.pushSet i { set with resultSetSize, additionalSearchInfoResponse }).record
          (r.answered i { set with resultSetSize, additionalSearchInfoResponse } now))
        (.serving i { set with resultSetSize, additionalSearchInfoResponse } databases query)
  | cached {bc i set databases query} :
      Moves cfg now fresh client bc (.serving i set databases query)
        (bc.record [.served i set.ptr now]) (.engaged i)
  | forward {bc i set databases query} :
      Moves cfg now fresh client bc (.serving i set databases query)
        (bc.record [.served i set.ptr now, .presentSent i set.resultSetId databases query])
        (.serving i set databases query)
  | release {bc v i} : v.held = some i →
      Moves cfg now fresh client bc v (bc.releaseBackend client i) .away
  | remove {bc v i} : v.held = some i →
      Moves cfg now fresh client bc v (bc.removeBackend client i) .away

theorem Moves.key {cfg : Config} {now : Time} {fresh : Nat} {client : Client}
    {bc bc' : BackendClass} {v v' : View} (h : Moves cfg now fresh client bc v bc' v') :
    bc'.key = bc.key := by
  cases h with
  | quiet hsame => exact hsame.key
  | giveUp hsame _ => exact hsame.key
  | created _ _ hkey _ _ _ _ => exact hkey
  | notCreated _ hkey _ _ _ _ => exact hkey
  | add _ _ _ => simp only [countId]; split <;> rfl
  | choose _ => simp only [countId]; split <;> rfl
  | _ => rfl

/-! ## The steps of a thread are moves -/

variable {cfg : Config} {now : Time} {fresh : Nat} {client : Client} {bc : BackendClass}
  {f : Frontend}

theorem mem_of_firstWith {p : BackendSet → Bool} {list : List BackendInstance}
    {b : BackendInstance} {set : BackendSet} (h : firstWith p list = some (b, set)) :
    b ∈ list ∧ set ∈ b.sets ∧ p set = true := by
  induction list with
  | nil => cases h
  | cons b' list ih =>
    rw [firstWith] at h
    split at h
    · rename_i set' hfind
      cases h
      exact ⟨by simp, List.mem_of_find?_eq_some hfind, List.find?_some hfind⟩
    · obtain ⟨hb, hset, hp⟩ := ih h
      exact ⟨by simp [hb], hset, hp⟩

theorem mem_of_find {i : InstanceId} {b : BackendInstance} (h : bc.find i = some b) :
    b ∈ bc.backendList ∧ b.id = i :=
  ⟨List.mem_of_find?_eq_some h, by simpa using List.find?_some h⟩

/-- What `override_set` replaces, and where it finds room. -/
theorem overrideSet_replace {databases : List String} {outOfSessions : Bool}
    {b : BackendInstance} {set : BackendSet}
    (h : overrideSet cfg now bc databases outOfSessions = some (.replace b set)) :
    b ∈ bc.backendList ∧ b.inUse = false ∧ set ∈ b.sets ∧
      Replaceable cfg now outOfSessions set := by
  simp only [overrideSet] at h
  split at h
  · rename_i b' set' hfirst
    cases h
    obtain ⟨hb, hset, hp⟩ := mem_of_firstWith hfirst
    obtain ⟨hb, hidle⟩ := List.mem_filter.mp hb
    simp only [Bool.and_eq_true, Bool.or_eq_true, decide_eq_true_eq] at hp
    refine ⟨hb, by simpa using hidle, hset, ?_⟩
    rcases hp.2 with (hout | hlt) | hge
    · exact .inl hout
    · exact .inr (.inl hlt)
    · exact .inr (.inr hge)
  · simp at h

theorem overrideSet_add {databases : List String} {outOfSessions : Bool} {b : BackendInstance}
    (h : overrideSet cfg now bc databases outOfSessions = some (.add b)) :
    b ∈ bc.backendList ∧ b.inUse = false ∧ b.sets.length < maxSets cfg bc := by
  simp only [overrideSet] at h
  split at h
  · cases h
  · obtain ⟨b', hfind, hb'⟩ := Option.map_eq_some_iff.mp h
    cases hb'
    have hp := List.find?_some hfind
    simp only [Bool.and_eq_true, Bool.not_eq_true', decide_eq_true_eq] at hp
    exact ⟨List.mem_of_find?_eq_some hfind, hp.1, hp.2⟩

theorem similar_spec {databases : List String} {query : Query}
    {info : Option (Option (List UInt8))} {set : BackendSet}
    (h : similar databases query info set = true) :
    Util.match_ set.databases databases = true ∧ query = set.query := by
  simp only [similar, Bool.and_eq_true, decide_eq_true_eq] at h
  exact h.1

theorem older_cases (b1 : Option BackendInstance) (b : BackendInstance) :
    older b1 b = b1 ∨ (older b1 b = some b ∧ b.inUse = false) := by
  unfold older
  split
  · exact .inl rfl
  · rename_i hidle
    have hb : b.inUse = false := by simpa using hidle
    cases b1 with
    | none => exact .inr ⟨rfl, hb⟩
    | some b1 =>
      simp only
      split
      · exact .inr ⟨rfl, hb⟩
      · exact .inl rfl

theorem leastRecentlyUsed_spec {b : BackendInstance} (h : bc.leastRecentlyUsed = some b) :
    b ∈ bc.backendList ∧ b.inUse = false := by
  have hfold : ∀ (list : List BackendInstance) (b1 : Option BackendInstance),
      list.foldl older b1 = some b → b1 = some b ∨ (b ∈ list ∧ b.inUse = false) := by
    intro list
    induction list with
    | nil => exact fun b1 hb1 => .inl hb1
    | cons a list ih =>
      intro b1 hb1
      rcases ih _ hb1 with heq | ⟨hmem, hidle⟩
      · rcases older_cases b1 a with hold | ⟨hold, hidle⟩
        · exact .inl (hold ▸ heq)
        · rw [hold] at heq
          cases heq
          exact .inr ⟨by simp, hidle⟩
      · exact .inr ⟨by simp [hmem], hidle⟩
  rcases hfold bc.backendList none h with hnone | hmem
  · cases hnone
  · exact hmem

theorem overrideStep_moves (g : GetSet) :
    Moves cfg now fresh client bc .away (overrideStep cfg now client bc f g).backendClass
      (overrideStep cfg now client bc f g).pc.view := by
  rw [overrideStep]
  split
  · rename_i b set h
    obtain ⟨hb, hidle, hset, hrep⟩ := overrideSet_replace h
    exact .replace _ hb hidle hset hrep
  · rename_i b h
    obtain ⟨hb, hidle, hlen⟩ := overrideSet_add h
    exact .add hb hidle hlen
  · split
    · exact .quiet (.refl bc)
    · exact .beginCreate

theorem getSetStep_moves (g : GetSet) :
    Moves cfg now fresh client bc .away (getSetStep cfg now client bc f g).backendClass
      (getSetStep cfg now client bc f g).pc.view := by
  rw [getSetStep]
  split
  · rename_i b set h
    have hfirst : firstWith (similar g.databases g.query g.request.wantedSearchInfo)
        bc.backendList = some (b, set) := by
      split at h
      · exact h
      · cases h
    obtain ⟨hb, hset, hsim⟩ := mem_of_firstWith hfirst
    obtain ⟨hmatch, hquery⟩ := similar_spec hsim
    split
    · exact .quiet (.refl bc)
    · rename_i hidle
      exact .found g.request hb (by simpa using hidle) hset hmatch hquery
  · exact overrideStep_moves g

theorem createdBackend_spec (bc : BackendClass) (client : Client) (i : InstanceId) (now : Time)
    (o : InitOutcome) :
    (bc.createdBackend client i now o).key = bc.key ∧
      (bc.createdBackend client i now o).namedResultSets =
        o.response.any InitResponse.grantsNamedResultSets ∧
      (bc.createdBackend client i now o).creating = bc.creating.erase client ∧
      (o.accepted = true →
        (bc.createdBackend client i now o).backendList =
            bc.backendList ++ [⟨i, [], true, 0, 0, now⟩] ∧
          (bc.createdBackend client i now o).log = .acquired client i ::
            .initAnswered (o.response.any InitResponse.grantsNamedResultSets) :: bc.log) ∧
      (o.accepted = false →
        (bc.createdBackend client i now o).backendList = bc.backendList ∧
          (bc.createdBackend client i now o).log =
            .initAnswered (o.response.any InitResponse.grantsNamedResultSets) :: bc.log) := by
  cases h : o.accepted <;> simp [createdBackend, h]

theorem createdStep_moves (c : Creator) (o : InitOutcome) :
    Moves cfg now fresh client bc .creating
      (createdStep now fresh client bc f c o).backendClass
      (createdStep now fresh client bc f c o).pc.view := by
  obtain ⟨hkey, hnamed, hcreating, hyes, hno⟩ :=
    createdBackend_spec bc client fresh now o
  simp only [createdStep]
  cases h : o.accepted with
  | true =>
    obtain ⟨hlist, hlog⟩ := hyes h
    rw [if_pos rfl]
    cases c with
    | init req => exact .created _ (.inr rfl) hkey hlist hnamed hlog hcreating
    | getSet g => exact .created _ (.inl rfl) hkey hlist hnamed hlog hcreating
    | scan => exact .created _ (.inr rfl) hkey hlist hnamed hlog hcreating
  | false =>
    obtain ⟨hlist, hlog⟩ := hno h
    rw [if_neg (by simp)]
    cases c with
    | init req => exact .notCreated _ hkey hlist hnamed hlog hcreating
    | getSet g => exact .notCreated _ hkey hlist hnamed hlog hcreating
    | scan => exact .notCreated _ hkey hlist hnamed hlog hcreating

theorem crash_of_find {v : View} {i : InstanceId} (hv : v.held = some i)
    (h : bc.find i = none) : Moves cfg now fresh client bc v bc .away := by
  refine .crash hv fun b hb => ?_
  rw [h] at hb
  cases hb

theorem timestampStep_moves {v : View} {i : InstanceId} {pc : Pc} (hpc : pc.view = v)
    (hv : v.held = some i) :
    Moves cfg now fresh client bc v (timestampStep now bc f i pc).backendClass
      (timestampStep now bc f i pc).pc.view := by
  unfold timestampStep
  cases hfind : bc.find i with
  | none => exact crash_of_find hv hfind
  | some b =>
    simp only
    split
    · rw [hpc]
      exact .timestamp hv
    · rename_i hidle
      refine .crash hv fun b' hb' => ?_
      rw [hfind] at hb'
      cases hb'
      simpa using hidle

theorem searchedStep_moves (g : GetSet) (i : InstanceId) (set : BackendSet)
    (answer : Option SearchAnswer) :
    Moves cfg now fresh client bc (.searching i set g.databases g.query)
      (searchedStep cfg now bc f g i set answer).backendClass
      (searchedStep cfg now bc f g i set answer).pc.view := by
  cases answer with
  | none => exact .giveUp (.refl bc) rfl
  | some answer =>
    simp only [searchedStep]
    split
    · exact .giveUp (.refl bc) rfl
    · split
      · exact .giveUp (.refl bc) rfl
      · split
        · exact .giveUp (.refl bc) rfl
        · exact .push g.request _ _

theorem serving_of_some {g : GetSet} {set : BackendSet} (h : g.foundSet = some set) :
    g.serving = g.foundBackend.elim .away fun i => .serving i set g.databases g.query := by
  unfold GetSet.serving
  rw [h]
  cases g.foundBackend <;> rfl

theorem serving_of_none {g : GetSet} (h : g.foundSet = none) : g.serving = .away := by
  unfold GetSet.serving
  rw [h]
  cases g.foundBackend <;> rfl

theorem returnedStep_moves {g : GetSet} {o : Outcome} {a : After}
    (h : returnedStep now bc f g o = some a) :
    Moves cfg now fresh client bc g.serving a.backendClass a.pc.view := by
  unfold returnedStep at h
  split at h
  · -- a search, or nothing was found
    split at h
    · rename_i hset
      cases h
      rw [serving_of_none hset]
      exact .quiet (.refl bc)
    · rename_i set req hset _
      cases h
      rw [serving_of_some hset]
      cases g.foundBackend with
      | none => exact .quiet (.refl bc)
      | some i => exact .giveUp (.refl bc) rfl
    · cases h
  · split at h
    · rename_i set req hset _
      rw [serving_of_some hset]
      split at h
      · cases h
        cases g.foundBackend with
        | none => exact .quiet (.refl bc)
        | some i => exact .cached
      · cases h
        exact .quiet (.refl bc)
    · cases h
  · cases h

theorem same_countInit (bc : BackendClass) : Same bc bc.countInit := ⟨rfl, rfl, rfl, rfl, rfl⟩

theorem next_after (bc : BackendClass) (f : Frontend) (next : Next) :
    (next.after bc f).backendClass = bc ∧ (next.after bc f).pc.view = .away := by
  cases next with
  | done => exact ⟨rfl, rfl⟩
  | closed => exact ⟨rfl, rfl⟩
  | initReply req => exact ⟨rfl, rfl⟩
  | restart g => exact ⟨rfl, rfl⟩
  | searchError g => exact ⟨rfl, serving_of_none rfl⟩

theorem initReplyStep_view (req : InitRequest) :
    (initReplyStep cfg bc f req).backendClass = bc ∧
      (initReplyStep cfg bc f req).pc.view = .away := by
  unfold initReplyStep
  split <;> exact ⟨rfl, rfl⟩

/-- Every step of a thread is a move. -/
theorem threadStep_moves {pc : Pc} {o : Outcome} {a : After}
    (h : threadStep cfg now fresh client bc f pc o = some a) :
    Moves cfg now fresh client bc pc.view a.backendClass a.pc.view := by
  unfold threadStep at h
  split at h
  case h_1 =>
    split at h
    · cases h
      exact .beginCreate
    · cases h
      exact .quiet (.refl bc)
  case h_2 =>
    cases h
    exact .quiet (same_countInit bc)
  case h_3 =>
    cases h
    exact createdStep_moves _ _
  case h_4 req =>
    cases h
    rw [(initReplyStep_view req).1, (initReplyStep_view req).2]
    exact .quiet (.refl bc)
  case h_5 =>
    cases h
    exact getSetStep_moves _
  case h_6 =>
    cases h
    exact getSetStep_moves _
  case h_7 i g =>
    split at h
    · rename_i b hfind
      obtain ⟨hb, rfl⟩ := mem_of_find hfind
      cases h
      exact .choose hb
    · rename_i hfind
      cases h
      exact crash_of_find rfl hfind
  case h_8 i g =>
    cases h
    exact timestampStep_moves rfl rfl
  case h_9 i g =>
    cases h
    exact .send (rfl : (g.newSet fresh now).ptr = fresh) rfl
  case h_10 i set g answer =>
    cases h
    exact searchedStep_moves g i set answer
  case h_11 => exact returnedStep_moves h
  case h_12 i set g =>
    cases h
    exact timestampStep_moves rfl rfl
  case h_13 =>
    cases h
    exact .quiet (.refl bc)
  case h_14 i set g =>
    cases h
    exact .forward
  case h_15 =>
    cases h
    exact .giveUp (.refl bc) rfl
  case h_16 =>
    cases h
    exact .giveUp (.refl bc) rfl
  case h_17 =>
    split at h
    · rename_i b hb
      cases h
      obtain ⟨hmem, hidle⟩ := leastRecentlyUsed_spec hb
      exact .take hmem hidle
    · cases h
      exact .beginCreate
  case h_18 i =>
    cases h
    exact timestampStep_moves rfl rfl
  case h_19 =>
    cases h
    exact .quiet (.refl bc)
  case h_20 =>
    cases h
    exact .quiet (.refl bc)
  case h_21 i next =>
    cases h
    rw [(next_after _ f next).1, (next_after _ f next).2]
    exact .release rfl
  case h_22 =>
    cases h
    exact .quiet (.refl bc)
  case h_23 i next =>
    cases h
    rw [(next_after _ f next).1, (next_after _ f next).2]
    exact .remove rfl
  case h_24 next =>
    cases h
    rw [(next_after _ f next).1, (next_after _ f next).2]
    exact .quiet (.refl bc)
  case h_25 => cases h

/-! ## Threads that have no instance -/

/-- The arguments of `getSetStep`, where the thread is before it. -/
def Pc.attempt (cfg : Config) (bc : BackendClass) : Pc → Option GetSet
  | .getSet g => some { g with outOfSessions := bc.backendList.length ≥ cfg.sessionMax }
  | .wait g => some g
  | _ => none

theorem returnedStep_view {g : GetSet} {o : Outcome} {a : After}
    (h : returnedStep now bc f g o = some a) (hv : g.serving = .away) :
    a.pc.view = .away ∨ ∃ i, a.pc.view = .engaged i := by
  unfold returnedStep at h
  split at h
  · split at h
    · cases h
      exact .inl rfl
    · cases h
      cases hb : g.foundBackend with
      | none => exact .inl (by simp [Pc.view])
      | some i => exact .inr ⟨i, by simp [Pc.view]⟩
    · cases h
  · split at h
    · rename_i set req hset hreq
      have hnone : g.foundBackend = none := by
        rw [serving_of_some hset] at hv
        cases hb : g.foundBackend with
        | none => rfl
        | some i =>
          rw [hb] at hv
          cases hv
      split at h <;> cases h <;> exact .inl (by simp [Pc.view, hnone])
    · cases h
  · cases h

/-- Where a thread without an instance, and with no init under way, may go. -/
theorem threadStep_away {pc : Pc} {o : Outcome} {a : After}
    (h : threadStep cfg now fresh client bc f pc o = some a) (hv : pc.view = .away) :
    (∃ g, pc.attempt cfg bc = some g ∧ o = .go ∧ a = getSetStep cfg now client bc f g) ∨
    (o = .go ∧ a.pc.view = .creating ∧
      ((∃ req, pc = .init req ∧ bc.noSucceeded = 0) ∨
        (pc = .scan ∧ bc.leastRecentlyUsed = none))) ∨
    a.pc.view = .away ∨ ∃ i, a.pc.view = .engaged i := by
  unfold threadStep at h
  split at h
  case h_1 req =>
    split at h
    · rename_i hnone
      cases h
      exact .inr (.inl ⟨rfl, rfl, .inl ⟨req, rfl, hnone⟩⟩)
    · cases h
      exact .inr (.inr (.inl rfl))
  case h_4 req =>
    cases h
    exact .inr (.inr (.inl (initReplyStep_view req).2))
  case h_5 g =>
    cases h
    exact .inl ⟨_, rfl, rfl, rfl⟩
  case h_6 g =>
    cases h
    exact .inl ⟨_, rfl, rfl, rfl⟩
  case h_11 => exact .inr (.inr (returnedStep_view h hv))
  case h_13 =>
    cases h
    exact .inr (.inr (.inl rfl))
  case h_17 =>
    split at h
    · cases h
      exact .inr (.inr (.inr ⟨_, rfl⟩))
    · rename_i hnone
      cases h
      exact .inr (.inl ⟨rfl, rfl, .inr ⟨rfl, hnone⟩⟩)
  case h_22 =>
    cases h
    exact .inr (.inr (.inl rfl))
  case h_24 next =>
    cases h
    exact .inr (.inr (.inl (next_after _ f next).2))
  case h_25 => cases h
  -- elsewhere the thread has an instance, or an init under way
  all_goals cases hv

end SessionShared
end Metaproxy
