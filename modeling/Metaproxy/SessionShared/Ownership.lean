import Metaproxy.Lib.Pool
import Metaproxy.SessionShared.ClassRuns

/-!
# SessionShared.Ownership

The instances of a class as a pool: an instance is in use exactly when one client holds it. This
holds of every class in every run, and each client has released or removed what it has acquired, but
for the instance it holds (`owned_of_reach`).
-/

namespace Metaproxy
namespace SessionShared

open Lib BackendClass

/-! ## Instances by number -/

namespace BackendClass

def ids (bc : BackendClass) : List InstanceId := bc.backendList.map (·.id)

/-- Whether the instance is in use; `none` when it is not in the list. -/
def status (bc : BackendClass) (i : InstanceId) : Option Bool := (bc.find i).map (·.inUse)

end BackendClass

variable {bc bc' : BackendClass} {i j : InstanceId} {b : BackendInstance}
  {f : BackendInstance → BackendInstance}

theorem find_modify (hid : ∀ b, (f b).id = b.id) :
    (bc.modify i f).find j = if j = i then (bc.find j).map f else bc.find j := by
  have hp : ((fun b : BackendInstance => decide (b.id = j)) ∘
      fun b => if b.id = i then f b else b) = fun b => decide (b.id = j) := by
    funext b
    simp only [Function.comp_apply]
    split
    · rw [hid]
    · rfl
  unfold BackendClass.find BackendClass.modify
  rw [List.find?_map, hp]
  cases hfind : bc.backendList.find? fun b => decide (b.id = j) with
  | none => simp
  | some b =>
    have hb : b.id = j := by simpa using List.find?_some hfind
    simp only [Option.map_some, hb]
    split <;> rfl

theorem find_useBackend (client : Client) :
    (bc.useBackend client i).find j = if j = i then
      (bc.find j).map fun b => { b with inUse := true, sequenceThis := bc.sequenceTop }
      else bc.find j :=
  find_modify (f := fun b => { b with inUse := true, sequenceThis := bc.sequenceTop }) fun _ => rfl

theorem find_eraseSet (ptr : Nat) :
    (bc.eraseSet i ptr).find j = if j = i then
      (bc.find j).map fun b => { b with sets := b.sets.filter fun set => set.ptr ≠ ptr }
      else bc.find j :=
  find_modify (f := fun b => { b with sets := b.sets.filter fun set => set.ptr ≠ ptr }) fun _ => rfl

theorem find_pushSet (set : BackendSet) :
    (bc.pushSet i set).find j = if j = i then
      (bc.find j).map fun b => { b with sets := b.sets ++ [set] } else bc.find j :=
  find_modify (f := fun b => { b with sets := b.sets ++ [set] }) fun _ => rfl

theorem find_countId :
    (bc.countId i).find j = if j = i then
      (bc.find j).map fun b => { b with resultSetSequence :=
        if bc.namedResultSets then b.resultSetSequence + 1 else b.resultSetSequence }
      else bc.find j := by
  unfold countId
  split
  · exact find_modify (f := fun b => { b with resultSetSequence := b.resultSetSequence + 1 })
      fun _ => rfl
  · simp

@[simp] theorem find_record (events : List Event) : (bc.record events).find j = bc.find j := rfl

theorem ids_modify (hid : ∀ b, (f b).id = b.id) : (bc.modify i f).ids = bc.ids := by
  unfold BackendClass.ids BackendClass.modify
  rw [List.map_map]
  refine List.map_congr_left fun b _ => ?_
  simp only [Function.comp_apply]
  split
  · exact hid b
  · rfl

theorem find?_id {list : List BackendInstance} (hn : (list.map (·.id)).Nodup) (hb : b ∈ list) :
    list.find? (fun b' => decide (b'.id = b.id)) = some b := by
  induction list with
  | nil => cases hb
  | cons a list ih =>
    rw [List.map_cons, List.nodup_cons] at hn
    rcases List.mem_cons.mp hb with rfl | hb
    · simp
    · have hne : a.id ≠ b.id := fun heq => hn.1 (heq ▸ List.mem_map_of_mem hb)
      rw [List.find?_cons_of_neg (by simpa using hne)]
      exact ih hn.2 hb

theorem find_of_mem (hn : bc.ids.Nodup) (hb : b ∈ bc.backendList) : bc.find b.id = some b :=
  find?_id hn hb

theorem find_eq_some (hn : bc.ids.Nodup) : bc.find j = some b ↔ b ∈ bc.backendList ∧ b.id = j := by
  refine ⟨mem_of_find, ?_⟩
  rintro ⟨hb, rfl⟩
  exact find_of_mem hn hb

theorem find_none (h : j ∉ bc.ids) : bc.find j = none := by
  refine List.find?_eq_none.mpr fun b hb => ?_
  have hne : b.id ≠ j := fun heq => h (heq ▸ List.mem_map_of_mem hb)
  simpa using hne

/-! ### Two classes with the same instances in the same use -/

structure SameUse (bc bc' : BackendClass) : Prop where
  ids : bc'.ids = bc.ids
  status : bc'.status = bc.status

theorem Same.use (h : Same bc bc') : SameUse bc bc' where
  ids := by rw [ids, ids, h.backendList]
  status := by
    funext i
    rw [status, status, find, find, h.backendList]

theorem SameUse.trans {bc1 bc2 bc3 : BackendClass} (h : SameUse bc1 bc2) (h' : SameUse bc2 bc3) :
    SameUse bc1 bc3 := ⟨h'.ids.trans h.ids, h'.status.trans h.status⟩

theorem sameUse_modify (hid : ∀ b, (f b).id = b.id) (huse : ∀ b, (f b).inUse = b.inUse) :
    SameUse bc (bc.modify i f) where
  ids := ids_modify hid
  status := by
    funext j
    simp only [status, find_modify hid]
    split
    · cases bc.find j with
      | none => rfl
      | some b => simp [huse]
    · rfl

theorem sameUse_record (events : List Event) : SameUse bc (bc.record events) := ⟨rfl, rfl⟩

theorem sameUse_timestamp (now : Time) : SameUse bc (bc.timestamp i now) :=
  sameUse_modify (fun _ => rfl) fun _ => rfl

theorem sameUse_eraseSet (ptr : Nat) : SameUse bc (bc.eraseSet i ptr) :=
  sameUse_modify (fun _ => rfl) fun _ => rfl

theorem sameUse_pushSet (set : BackendSet) : SameUse bc (bc.pushSet i set) :=
  sameUse_modify (fun _ => rfl) fun _ => rfl

theorem sameUse_countId : SameUse bc (bc.countId i) := by
  unfold countId
  split
  · exact sameUse_modify (fun _ => rfl) fun _ => rfl
  · exact ⟨rfl, rfl⟩

/-! ### Use and release -/

theorem status_modify_set {u : Bool} (hid : ∀ b, (f b).id = b.id) (huse : ∀ b, (f b).inUse = u)
    (h : (bc.status i).isSome) :
    (bc.modify i f).status = Function.update bc.status i (some u) := by
  funext j
  simp only [status, find_modify hid]
  by_cases hj : j = i
  · subst hj
    simp only [status] at h
    cases hfind : bc.find j with
    | none => simp [hfind] at h
    | some b => simp [huse]
  · simp [hj, status]

theorem status_useBackend {client : Client} (h : (bc.status i).isSome) :
    (bc.useBackend client i).status = Function.update bc.status i (some true) :=
  status_modify_set (f := fun b => { b with inUse := true, sequenceThis := bc.sequenceTop })
    (fun _ => rfl) (fun _ => rfl) h

theorem ids_useBackend (client : Client) : (bc.useBackend client i).ids = bc.ids :=
  ids_modify (f := fun b => { b with inUse := true, sequenceThis := bc.sequenceTop }) fun _ => rfl

theorem status_releaseBackend {client : Client} (h : (bc.status i).isSome) :
    (bc.releaseBackend client i).status = Function.update bc.status i (some false) :=
  status_modify_set (f := fun b => { b with inUse := false }) (fun _ => rfl) (fun _ => rfl) h

theorem ids_releaseBackend (client : Client) : (bc.releaseBackend client i).ids = bc.ids :=
  ids_modify (f := fun b => { b with inUse := false }) fun _ => rfl

theorem find_removeBackend (client : Client) :
    (bc.removeBackend client i).find j = if j = i then none else bc.find j := by
  unfold BackendClass.find removeBackend
  rw [List.find?_filter]
  split
  · rename_i hj
    refine List.find?_eq_none.mpr fun b _ => ?_
    simp [hj]
  · rename_i hj
    congr 1
    funext b
    by_cases hb : b.id = j
    · simp [hb, hj]
    · simp [hb]

theorem status_removeBackend (client : Client) :
    (bc.removeBackend client i).status = Function.update bc.status i none := by
  funext j
  simp only [status, find_removeBackend]
  by_cases hj : j = i
  · simp [hj]
  · simp [hj, status]

theorem ids_removeBackend_sublist (client : Client) :
    (bc.removeBackend client i).ids.Sublist bc.ids := List.filter_sublist.map _

/-- The class after a new instance has been added to its list. -/
theorem find_append (hlist : bc'.backendList = bc.backendList ++ [b]) (hb : b.id ∉ bc.ids) :
    bc'.find j = if j = b.id then some b else bc.find j := by
  unfold BackendClass.find
  rw [hlist, List.find?_append]
  by_cases hj : j = b.id
  · subst hj
    rw [← BackendClass.find, find_none hb]
    simp
  · have hne : ¬ b.id = j := fun heq => hj heq.symm
    simp [hj, hne]

theorem status_append (hlist : bc'.backendList = bc.backendList ++ [b]) (hb : b.id ∉ bc.ids) :
    bc'.status = Function.update bc.status b.id (some b.inUse) := by
  funext j
  simp only [status, find_append hlist hb]
  by_cases hj : j = b.id
  · simp [hj]
  · simp [hj, status]

theorem ids_expireInstances_sublist {cfg : Config} (now clock : Time) :
    (bc.expireInstances cfg now clock).ids.Sublist bc.ids := List.filter_sublist.map _

theorem find_expireInstances {cfg : Config} (hn : bc.ids.Nodup) (now clock : Time) :
    (bc.expireInstances cfg now clock).find j = some b ↔
      bc.find j = some b ∧ expires cfg now b = false := by
  rw [find_eq_some (hn.sublist (ids_expireInstances_sublist now clock)), find_eq_some hn]
  simp only [expireInstances, List.mem_filter, Bool.not_eq_true']
  tauto

theorem expires_idle {cfg : Config} {now : Time} (h : expires cfg now b = true) :
    b.inUse = false := by
  unfold expires at h
  rw [Bool.and_eq_true] at h
  simpa using h.1

/-! ## The pool -/

namespace BackendClass

/-- How often the client has acquired the instance. -/
def taken (bc : BackendClass) (client : Client) (i : InstanceId) : Nat :=
  bc.log.count (.acquired client i)

/-- How often the client has released or removed the instance. -/
def given (bc : BackendClass) (client : Client) (i : InstanceId) : Nat :=
  bc.log.count (.released client i) + bc.log.count (.removed client i)

end BackendClass

def ClassState.pool (a : ClassState) : Pool Client InstanceId where
  status := a.backendClass.status
  holds client := (a.views client).held

structure Owned (a : ClassState) : Prop where
  nodup : a.backendClass.ids.Nodup
  fresh : ∀ i ∈ a.backendClass.ids, i < a.fresh
  sound : a.pool.Sound
  balanced : a.pool.Balanced a.backendClass.taken a.backendClass.given

variable {cfg : Config} {now : Time} {fresh : Nat} {client : Client} {v v' : View}
  {a a' : ClassState}

/-- The number for a new instance is not taken. -/
theorem Owned.fresh_notMem (h : Owned a) : a.fresh ∉ a.backendClass.ids :=
  fun hmem => Nat.lt_irrefl _ (h.fresh _ hmem)

theorem Owned.find_of_held (h : Owned a) (hv : (a.views client).held = some i) :
    ∃ b, a.backendClass.find i = some b ∧ b.inUse = true := by
  obtain ⟨b, hb, huse⟩ := Option.map_eq_some_iff.mp (h.sound.inUse client i hv)
  exact ⟨b, hb, huse⟩

theorem Owned.status_of_idle (h : Owned a) (hb : b ∈ a.backendClass.backendList)
    (hidle : b.inUse = false) : a.backendClass.status b.id = some false := by
  rw [status, find_of_mem h.nodup hb, Option.map_some, hidle]

theorem owned_new (h : a.New) : Owned a := by
  obtain ⟨⟨key, hbc⟩, hviews⟩ := h
  have hids : a.backendClass.ids = [] := by rw [hbc]; rfl
  have hholds : ∀ client, a.pool.holds client = none := by
    intro client
    simp [ClassState.pool, hviews client, View.held]
  refine ⟨by simp [hids], by simp [hids], .start hholds fun i => ?_, fun client i => ?_⟩
  · simp [ClassState.pool, hbc, status, find, BackendClass.new]
  · rw [hholds client, hbc]
    rfl

/-- A step that leaves the instances, their use and the loans as they are. -/
theorem Owned.keep (h : Owned a) (huse : SameUse a.backendClass a'.backendClass)
    (hheld : ∀ client, (a'.views client).held = (a.views client).held)
    (hfresh : a.fresh ≤ a'.fresh)
    (htaken : a'.backendClass.taken = a.backendClass.taken)
    (hgiven : a'.backendClass.given = a.backendClass.given) : Owned a' where
  nodup := huse.ids ▸ h.nodup
  fresh i hi := Nat.lt_of_lt_of_le (h.fresh i (huse.ids ▸ hi)) hfresh
  sound := h.sound.idle (funext hheld) fun i => by simp [ClassState.pool, huse.status]
  balanced := by
    have hholds : a'.pool.holds = a.pool.holds := funext hheld
    intro client i
    rw [htaken, hgiven, hholds]
    exact h.balanced client i

/-- The state of a class after a move. -/
abbrev ClassState.moved (a : ClassState) (client : Client) (bc : BackendClass) (v : View) :
    ClassState := ⟨a.clock, a.fresh + 1, bc, Function.update a.views client v⟩

theorem held_update (client' : Client) (hv : v.held = (a.views client).held) :
    (Function.update a.views client v client').held = (a.views client').held := by
  by_cases heq : client' = client
  · subst heq
    rw [Function.update_self, hv]
  · rw [Function.update_of_ne heq]

theorem pool_moved_holds (bc : BackendClass) (client : Client) (v : View) :
    (a.moved client bc v).pool.holds = Function.update a.pool.holds client v.held := by
  funext client'
  simp only [ClassState.pool]
  by_cases heq : client' = client
  · subst heq
    simp
  · simp [heq]

theorem Owned.take (h : Owned a) (hnone : (a.views client).held = none) (hv : v.held = some i)
    (hi : a.backendClass.status i ≠ some true) (hids : bc.ids.Nodup)
    (hlt : ∀ i ∈ bc.ids, i < a.fresh + 1)
    (hstatus : bc.status = Function.update a.backendClass.status i (some true))
    (htaken : ∀ client' i', bc.taken client' i' =
      a.backendClass.taken client' i' + if client = client' ∧ i = i' then 1 else 0)
    (hgiven : bc.given = a.backendClass.given) : Owned (a.moved client bc v) := by
  have hpool : (a.moved client bc v).pool = a.pool.take client i := by
    rw [Pool.mk.injEq]
    exact ⟨hstatus, by rw [pool_moved_holds, hv]; rfl⟩
  refine ⟨hids, hlt, hpool ▸ h.sound.take hnone hi, ?_⟩
  rw [hpool, show (a.moved client bc v).backendClass.taken = _ from
    funext fun c' => funext fun i' => htaken c' i', hgiven]
  exact h.balanced.take hnone

theorem Owned.giveBack {u : Option Bool} (h : Owned a) (hold : (a.views client).held = some i)
    (hv : v.held = none) (hu : u ≠ some true) (hids : bc.ids.Sublist a.backendClass.ids)
    (hstatus : bc.status = Function.update a.backendClass.status i u)
    (htaken : bc.taken = a.backendClass.taken)
    (hgiven : ∀ client' i', bc.given client' i' =
      a.backendClass.given client' i' + if client = client' ∧ i = i' then 1 else 0) :
    Owned (a.moved client bc v) := by
  have hpool : (a.moved client bc v).pool = a.pool.giveBack client i u := by
    rw [Pool.mk.injEq]
    exact ⟨hstatus, by rw [pool_moved_holds, hv]; rfl⟩
  refine ⟨h.nodup.sublist hids, fun i hi => Nat.lt_succ_of_lt (h.fresh i (hids.subset hi)),
    hpool ▸ h.sound.giveBack hold hu, ?_⟩
  rw [hpool, show (a.moved client bc v).backendClass.given = _ from
    funext fun c' => funext fun i' => hgiven c' i', htaken]
  exact h.balanced.giveBack hold

/-- An idle instance is taken into use, whatever else happens to it. -/
theorem Owned.useBackend (h : Owned a) (hnone : (a.views client).held = none)
    (hv : v.held = some b.id) (hb : b ∈ a.backendClass.backendList) (hidle : b.inUse = false)
    (huse : SameUse a.backendClass bc) (hlog : bc.taken = a.backendClass.taken)
    (hlog' : bc.given = a.backendClass.given)
    (hbc' : SameUse (bc.useBackend client b.id) bc')
    (htaken : bc'.taken = (bc.useBackend client b.id).taken)
    (hgiven : bc'.given = (bc.useBackend client b.id).given) :
    Owned (a.moved client bc' v) := by
  have hstatus := h.status_of_idle hb hidle
  have hids : bc'.ids = a.backendClass.ids := by rw [hbc'.ids, ids_useBackend, huse.ids]
  refine h.take hnone hv (by simp [hstatus]) (hids ▸ h.nodup)
    (fun i hi => Nat.lt_succ_of_lt (h.fresh i (hids ▸ hi))) ?_ (fun client' i' => ?_) ?_
  · rw [hbc'.status, status_useBackend (by simp [huse.status, hstatus]), huse.status]
  · rw [htaken, ← hlog]
    simp only [taken, BackendClass.useBackend, List.count_cons, beq_iff_eq, Event.acquired.injEq]
  · rw [hgiven, ← hlog']
    funext client' i'
    simp [given, BackendClass.useBackend]

theorem taken_record {events : List Event}
    (h : ∀ client i, Event.acquired client i ∉ events) : (bc.record events).taken = bc.taken := by
  funext client i
  simp [taken, record, List.count_append, List.count_eq_zero_of_not_mem (h client i)]

theorem given_record {events : List Event} (h : ∀ client i, Event.released client i ∉ events)
    (h' : ∀ client i, Event.removed client i ∉ events) : (bc.record events).given = bc.given := by
  funext client i
  simp [given, record, List.count_append, List.count_eq_zero_of_not_mem (h client i),
    List.count_eq_zero_of_not_mem (h' client i)]

theorem answered_mem {r : Request} {set : BackendSet} {e : Event}
    (h : e ∈ r.answered i set now) : e = .served i set.ptr now := by
  cases r with
  | search req => simpa [Request.answered] using h
  | present req => simp [Request.answered] at h

theorem taken_answered (r : Request) (set : BackendSet) :
    (bc.record (r.answered i set now)).taken = bc.taken :=
  taken_record fun _ _ h => by cases answered_mem h

theorem given_answered (r : Request) (set : BackendSet) :
    (bc.record (r.answered i set now)).given = bc.given :=
  given_record (fun _ _ h => by cases answered_mem h) fun _ _ h => by cases answered_mem h

theorem countId_log : (bc.countId i).log = bc.log := by
  unfold countId
  split <;> rfl

theorem taken_countId : (bc.countId i).taken = bc.taken := by
  funext client j
  rw [taken, countId_log, taken]

theorem given_countId : (bc.countId i).given = bc.given := by
  funext client j
  rw [given, countId_log, given]

/-- A move of the client that leaves the instances, their use and the loans as they are. -/
theorem Owned.keepMoved (h : Owned a) (huse : SameUse a.backendClass bc)
    (hheld : v.held = (a.views client).held) (htaken : bc.taken = a.backendClass.taken)
    (hgiven : bc.given = a.backendClass.given) : Owned (a.moved client bc v) :=
  h.keep huse (fun client' => held_update client' hheld) (Nat.le_succ _) htaken hgiven

theorem owned_move (h : Owned a)
    (hm : Moves cfg a.clock a.fresh client a.backendClass (a.views client) bc v) :
    Owned (a.moved client bc v) := by
  have same {bc : BackendClass} (hs : Same a.backendClass bc) :
      bc.taken = a.backendClass.taken ∧ bc.given = a.backendClass.given := by
    unfold taken given
    rw [hs.log]
    exact ⟨rfl, rfl⟩
  generalize hview : a.views client = u at hm
  generalize hclass : a.backendClass = bc0 at hm
  cases hm with
  | quiet hs =>
    subst hclass
    exact h.keepMoved hs.use (by rw [hview]) (same hs).1 (same hs).2
  | giveUp hs hi =>
    subst hclass
    exact h.keepMoved hs.use (by rw [hview, hi]; rfl) (same hs).1 (same hs).2
  | crash hi hcrash =>
    subst hclass
    obtain ⟨b, hb, huse⟩ := h.find_of_held (hview ▸ hi)
    simp [hcrash b hb] at huse
  | beginCreate =>
    subst hclass
    exact h.keepMoved ⟨rfl, rfl⟩ (by rw [hview]; rfl) rfl rfl
  | created granted hv' hkey hlist hnamed hlog hcreating =>
    subst hclass
    have hnot := h.fresh_notMem
    have hids : bc.ids = a.backendClass.ids ++ [a.fresh] := by simp [ids, hlist]
    refine h.take (by rw [hview]; rfl) (i := a.fresh) (by rcases hv' with rfl | rfl <;> rfl) ?_
      ?_ ?_ (status_append hlist hnot) (fun client' i' => ?_) ?_
    · simp [status, find_none hnot]
    · rw [hids]
      exact List.nodup_append.mpr ⟨h.nodup, by simp, by
        intro x hx y hy heq
        rw [List.mem_singleton.mp hy] at heq
        exact hnot (heq ▸ hx)⟩
    · intro i hi
      rw [hids] at hi
      rcases List.mem_append.mp hi with hold | hnew
      · exact Nat.lt_succ_of_lt (h.fresh i hold)
      · rw [List.mem_singleton.mp hnew]
        exact Nat.lt_succ_self _
    · simp [taken, hlog, List.count_cons]
    · funext client' i'
      simp [given, hlog]
  | notCreated granted hkey hlist hnamed hlog hcreating =>
    subst hclass
    refine h.keepMoved ⟨by rw [ids, ids, hlist], ?_⟩ (by rw [hview]; rfl) ?_ ?_
    · funext i
      rw [status, status, find, find, hlist]
    · funext client' i'
      simp [taken, hlog]
    · funext client' i'
      simp [given, hlog]
  | take hb hidle =>
    subst hclass
    exact h.useBackend (by rw [hview]; rfl) rfl hb hidle ⟨rfl, rfl⟩ rfl rfl ⟨rfl, rfl⟩ rfl rfl
  | found r hb hidle hset hmatch hquery =>
    subst hclass
    exact h.useBackend (by rw [hview]; rfl) rfl hb hidle ⟨rfl, rfl⟩ rfl rfl (sameUse_record _)
      (taken_answered r _) (given_answered r _)
  | replace outOfSessions hb hidle hset hrep =>
    subst hclass
    exact h.useBackend (by rw [hview]; rfl) rfl hb hidle
      ((sameUse_eraseSet _).trans (sameUse_record _)) (taken_record (by simp))
      (given_record (by simp) (by simp)) ⟨rfl, rfl⟩ rfl rfl
  | add hb hidle hlen =>
    subst hclass
    exact h.useBackend (by rw [hview]; rfl) rfl hb hidle sameUse_countId taken_countId
      given_countId ⟨rfl, rfl⟩ rfl rfl
  | choose hb =>
    subst hclass
    exact h.keepMoved sameUse_countId (by rw [hview]; rfl) taken_countId given_countId
  | timestamp hi =>
    subst hclass
    exact h.keepMoved (sameUse_timestamp _) (by rw [hview]) rfl rfl
  | send hptr hlast =>
    subst hclass
    exact h.keepMoved (sameUse_record _) (by rw [hview]; rfl) (taken_record (by simp))
      (given_record (by simp) (by simp))
  | push r resultSetSize info =>
    subst hclass
    exact h.keepMoved ((sameUse_pushSet _).trans (sameUse_record _)) (by rw [hview]; rfl)
      (taken_answered r _) (given_answered r _)
  | cached =>
    subst hclass
    exact h.keepMoved (sameUse_record _) (by rw [hview]; rfl) (taken_record (by simp))
      (given_record (by simp) (by simp))
  | forward =>
    subst hclass
    exact h.keepMoved (sameUse_record _) (by rw [hview]) (taken_record (by simp))
      (given_record (by simp) (by simp))
  | release hi =>
    subst hclass
    have hheld := hview ▸ hi
    obtain ⟨b, hb, -⟩ := h.find_of_held hheld
    refine h.giveBack hheld rfl (u := some false) (by simp)
      (by rw [ids_releaseBackend]) (status_releaseBackend (by simp [status, hb])) ?_ ?_
    · funext client' i'
      simp [taken, releaseBackend, record, BackendClass.modify]
    · intro client' i'
      simp only [given, releaseBackend, record, BackendClass.modify, List.cons_append,
        List.nil_append, List.count_cons, beq_iff_eq, Event.released.injEq, reduceCtorEq, if_false]
      omega
  | remove hi =>
    subst hclass
    have hheld := hview ▸ hi
    refine h.giveBack hheld rfl (u := none) (by simp) (ids_removeBackend_sublist client)
      (status_removeBackend client) ?_ ?_
    · funext client' i'
      simp [taken, removeBackend]
    · intro client' i'
      simp only [given, removeBackend, List.count_cons, beq_iff_eq, Event.removed.injEq,
        reduceCtorEq, if_false]
      omega

theorem dropped_only {e : Event} {clock : Time}
    (h : e ∈ (bc.backendList.filter (expires cfg now)).map fun b => Event.dropped b.id clock) :
    ∃ i, e = .dropped i clock := by
  obtain ⟨b, -, rfl⟩ := List.mem_map.mp h
  exact ⟨b.id, rfl⟩

theorem owned_expire (h : Owned a) (now : Time) :
    Owned { a with backendClass := a.backendClass.expireInstances cfg now a.clock } := by
  have hsub : (a.backendClass.expireInstances cfg now a.clock).ids.Sublist a.backendClass.ids :=
    ids_expireInstances_sublist now a.clock
  refine ⟨h.nodup.sublist hsub, fun i hi => h.fresh i (hsub.subset hi), ?_, ?_⟩
  · refine h.sound.idle rfl fun i => ?_
    simp only [ClassState.pool, status, Option.map_eq_some_iff]
    constructor
    · rintro ⟨b, hb, huse⟩
      exact ⟨b, ((find_expireInstances h.nodup now a.clock).mp hb).1, huse⟩
    · rintro ⟨b, hb, huse⟩
      refine ⟨b, (find_expireInstances h.nodup now a.clock).mpr ⟨hb, ?_⟩, huse⟩
      by_contra hexp
      simp [expires_idle (Bool.not_eq_false _ ▸ hexp)] at huse
  · have htaken : (a.backendClass.expireInstances cfg now a.clock).taken = a.backendClass.taken :=
      taken_record fun _ _ hmem => by cases (dropped_only hmem).choose_spec
    have hgiven : (a.backendClass.expireInstances cfg now a.clock).given = a.backendClass.given :=
      given_record (fun _ _ hmem => by cases (dropped_only hmem).choose_spec)
        fun _ _ hmem => by cases (dropped_only hmem).choose_spec
    rw [htaken, hgiven]
    exact h.balanced

theorem owned_step (h : Owned a) (hs : ClassStep cfg a a') : Owned a' := by
  cases hs with
  | rest hsame hviews hfresh =>
    refine h.keep hsame.use (fun client => by rw [hviews]) hfresh ?_ ?_
    · unfold taken
      rw [hsame.log]
    · unfold given
      rw [hsame.log]
  | move client hm => exact owned_move h hm
  | expire now => exact owned_expire h now

/-- In every run the instances in use are those that a client holds. -/
theorem owned_of_reach {ok : St → Label → Prop} {s : St} (h : Reach (step cfg) init ok s) :
    ∀ c < s.made, Owned (s.classAt c) :=
  classInvariant (fun _ => owned_new) (fun _ _ ha hs => owned_step ha hs) h

end SessionShared
end Metaproxy
