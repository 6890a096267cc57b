import Metaproxy.SessionShared.TargetSets

/-!
# SessionShared.Histories

What a target sees of the sessions that are shared. In every run, however the clients and the expiry
worker take turns and however requests end, a session is opened by an init for one client, requests
go over it only for the one client that holds it, presents go to a result set of their query, and
nothing goes over it once it is closed (`session_histories`).

* `Follows` — what may happen to a session, by the phase it is in.
* `History` — the phase that it comes to.
-/

namespace Metaproxy
namespace SessionShared

open Lib BackendClass

/-- How far the session of an instance has come. -/
inductive Phase where
  | new
  | idle
  | held (client : Client)
  | closed
deriving DecidableEq, Repr

def Event.instanceId : Event → Option InstanceId
  | .initAnswered _ => none
  | .acquired _ i | .released _ i | .removed _ i => some i
  | .searchSent i _ _ _ | .presentSent i _ _ _ => some i
  | .served i _ _ | .replaced i _ _ _ | .dropped i _ => some i

inductive Follows (i : InstanceId) (log : List Event) : Phase → Event → Phase → Prop where
  | opened {client : Client} {granted : Bool} {before : List Event} :
      log = .initAnswered granted :: before → Follows i log .new (.acquired client i) (.held client)
  | taken {client : Client} : Follows i log .idle (.acquired client i) (.held client)
  | search {client : Client} {id : ResultSetId} {databases : List String} {query : Query} :
      Follows i log (.held client) (.searchSent i id databases query) (.held client)
  /-- The result set was made by a search for the same query. -/
  | present {client : Client} {id : ResultSetId} {databases : List String} {query : Query} :
      Addressed log (.presentSent i id databases query) →
      Follows i log (.held client) (.presentSent i id databases query) (.held client)
  | served {client : Client} {ptr : Nat} {now : Time} :
      Follows i log (.held client) (.served i ptr now) (.held client)
  | replaced {ptr : Nat} {outOfSessions : Bool} {now : Time} :
      Follows i log .idle (.replaced i ptr outOfSessions now) .idle
  | released {client : Client} : Follows i log (.held client) (.released client i) .idle
  | removed {client : Client} : Follows i log (.held client) (.removed client i) .closed
  | dropped {now : Time} : Follows i log .idle (.dropped i now) .closed
  /-- An event of another session, or of none. -/
  | elsewhere {p : Phase} {e : Event} : e.instanceId ≠ some i → Follows i log p e p

inductive History (i : InstanceId) : List Event → Phase → Prop where
  | nil : History i [] .new
  | cons {log : List Event} {e : Event} {p p' : Phase} :
      History i log p → Follows i log p e p' → History i (e :: log) p'

/-- How a class has the instance whose session has come to the phase. -/
def Phase.Of (a : ClassState) (i : InstanceId) : Phase → Prop
  | .new | .closed => a.backendClass.status i = none
  | .idle => a.backendClass.status i = some false
  | .held client => (a.views client).held = some i

structure Histories (a : ClassState) : Prop where
  phase : ∀ i, ∃ p : Phase, History i a.backendClass.log p ∧ p.Of a i
  fresh : ∀ i, a.fresh ≤ i → History i a.backendClass.log .new

variable {cfg : Config} {bc bc' : BackendClass} {b : BackendInstance} {i j : InstanceId} {v : View}
  {client : Client} {a a' : ClassState} {now : Time} {l log : List Event} {p : Phase}

/-! ## Histories -/

theorem History.elsewhere (h : History i log p) (he : ∀ e ∈ l, e.instanceId ≠ some i) :
    History i (l ++ log) p := by
  induction l with
  | nil => exact h
  | cons e l ih =>
    obtain ⟨hhead, htail⟩ := List.forall_mem_cons.mp he
    exact .cons (ih htail) (.elsewhere hhead)

/-- A session of which an idle instance is dropped, among others. -/
theorem History.dropped {clock : Time} (h : History i log .idle) {list : List BackendInstance}
    (hn : (list.map (·.id)).Nodup) (hi : i ∈ list.map (·.id)) :
    History i (list.map (fun b => .dropped b.id clock) ++ log) .closed := by
  induction list with
  | nil => cases hi
  | cons b list ih =>
    rw [List.map_cons, List.nodup_cons] at hn
    rw [List.map_cons, List.cons_append]
    by_cases heq : b.id = i
    · have hrest : ∀ e ∈ list.map (fun b => Event.dropped b.id clock), e.instanceId ≠ some i := by
        intro e he
        obtain ⟨b', hb', rfl⟩ := List.mem_map.mp he
        intro hsome
        cases hsome
        exact hn.1 (heq ▸ List.mem_map.mpr ⟨b', hb', rfl⟩)
      rw [heq]
      exact .cons (h.elsewhere hrest) .dropped
    · rcases List.mem_cons.mp hi with hhead | htail
      · exact absurd hhead.symm heq
      · exact .cons (ih hn.2 htail) (.elsewhere fun hsome => heq (Option.some.inj hsome))

theorem Request.answered_history (r : Request) (set : BackendSet)
    (h : History i log (.held client)) :
    History i (r.answered i set now ++ log) (.held client) := by
  cases r with
  | search req => exact .cons h .served
  | present req => exact h

/-! ## One step -/

theorem Histories.of_held (h : Histories a) (ho : Owned a) (hv : (a.views client).held = some i) :
    History i a.backendClass.log (.held client) := by
  obtain ⟨p, hp, hof⟩ := h.phase i
  have hstatus : a.backendClass.status i = some true := ho.sound.inUse client i hv
  cases p with
  | new => cases hof.symm.trans hstatus
  | idle => cases hof.symm.trans hstatus
  | held client' =>
    have hsame : client' = client := ho.sound.unique client' client i hof hv
    exact hsame ▸ hp
  | closed => cases hof.symm.trans hstatus

theorem Histories.of_idle (h : Histories a) (ho : Owned a)
    (hstatus : a.backendClass.status i = some false) : History i a.backendClass.log .idle := by
  obtain ⟨p, hp, hof⟩ := h.phase i
  cases p with
  | new => cases hof.symm.trans hstatus
  | idle => exact hp
  | held client => cases (ho.sound.inUse client i hof).symm.trans hstatus
  | closed => cases hof.symm.trans hstatus

/-- A client does something with the session of one instance. -/
theorem Histories.touch (h : Histories a) (hbound : i ≤ a.fresh)
    (hmine : ∀ j, (a.views client).held = some j → j = i) (hheld : ∀ j, v.held = some j → j = i)
    (hstatus : ∀ j, j ≠ i → bc.status j = a.backendClass.status j)
    (hlog : bc.log = l ++ a.backendClass.log)
    (habout : ∀ e ∈ l, ∀ j, e.instanceId = some j → j = i)
    (hp : History i bc.log p) (hof : p.Of (a.moved client bc v) i) :
    Histories (a.moved client bc v) := by
  have hother (j : InstanceId) (hj : j ≠ i) {p : Phase} (hp : History j a.backendClass.log p) :
      History j bc.log p := by
    rw [hlog]
    exact hp.elsewhere fun e he hsome => hj (habout e he j hsome)
  refine ⟨fun j => ?_, fun j hj => ?_⟩
  · by_cases hj : j = i
    · subst hj
      exact ⟨p, hp, hof⟩
    · obtain ⟨p, hp, hof⟩ := h.phase j
      refine ⟨p, hother j hj hp, ?_⟩
      cases p with
      | new => exact (hstatus j hj).trans hof
      | idle => exact (hstatus j hj).trans hof
      | closed => exact (hstatus j hj).trans hof
      | held client' =>
        have hne : client' ≠ client := fun heq => hj (hmine j (heq ▸ hof))
        show (Function.update a.views client v client').held = some j
        rw [Function.update_of_ne hne]
        exact hof
  · have hlt : a.fresh < j := hj
    exact hother j (fun heq => Nat.not_lt_of_le hbound (heq ▸ hlt)) (h.fresh j (Nat.le_of_lt hlt))

/-- Nothing happens to a session. -/
theorem Histories.keep (h : Histories a) (hheld : ∀ client, (a'.views client).held =
      (a.views client).held) (hstatus : a'.backendClass.status = a.backendClass.status)
    (hfresh : a.fresh ≤ a'.fresh) (hlog : a'.backendClass.log = l ++ a.backendClass.log)
    (habout : ∀ e ∈ l, e.instanceId = none) : Histories a' := by
  have hother (j : InstanceId) {p : Phase} (hp : History j a.backendClass.log p) :
      History j a'.backendClass.log p := by
    rw [hlog]
    refine hp.elsewhere fun e he hsome => ?_
    cases (habout e he).symm.trans hsome
  refine ⟨fun j => ?_, fun j hj => hother j (h.fresh j (Nat.le_trans hfresh hj))⟩
  obtain ⟨p, hp, hof⟩ := h.phase j
  refine ⟨p, hother j hp, ?_⟩
  cases p with
  | new => exact (congrFun hstatus j).trans hof
  | idle => exact (congrFun hstatus j).trans hof
  | held client => exact (hheld client).trans hof
  | closed => exact (congrFun hstatus j).trans hof

/-- The client keeps the session that it holds. -/
theorem Histories.use (h : Histories a) (ho : Owned a) (hi : (a.views client).held = some i)
    (hv : v.held = some i) (hstatus : bc.status = a.backendClass.status)
    (hlog : bc.log = l ++ a.backendClass.log)
    (habout : ∀ e ∈ l, ∀ j, e.instanceId = some j → j = i)
    (hp : History i a.backendClass.log (.held client) → History i bc.log (.held client)) :
    Histories (a.moved client bc v) := by
  obtain ⟨b, hb, -⟩ := ho.find_of_held hi
  have hlt : i < a.fresh := by
    obtain ⟨hmem, hid⟩ := mem_of_find hb
    exact ho.fresh i (List.mem_map.mpr ⟨b, hmem, hid⟩)
  refine h.touch (Nat.le_of_lt hlt) (fun j hj => ?_) (fun j hj => ?_) (fun j _ => congrFun hstatus j)
    hlog habout (hp (h.of_held ho hi)) ?_
  · exact Option.some.inj (hj.symm.trans hi)
  · exact Option.some.inj (hj.symm.trans hv)
  · show (Function.update a.views client v client).held = some i
    rw [Function.update_self]
    exact hv

/-- An idle session is taken. -/
theorem Histories.take (h : Histories a) (ho : Owned a) (hnone : (a.views client).held = none)
    (hb : b ∈ a.backendClass.backendList) (hidle : b.inUse = false) (hv : v.held = some b.id)
    (hstatus : ∀ j, j ≠ b.id → bc.status j = a.backendClass.status j)
    (hlog : bc.log = l ++ a.backendClass.log)
    (habout : ∀ e ∈ l, ∀ j, e.instanceId = some j → j = b.id)
    (hp : History b.id a.backendClass.log .idle → History b.id bc.log (.held client)) :
    Histories (a.moved client bc v) := by
  have hlt : b.id < a.fresh := ho.fresh b.id (List.mem_map.mpr ⟨b, hb, rfl⟩)
  refine h.touch (Nat.le_of_lt hlt) (fun j hj => ?_) (fun j hj => ?_) hstatus hlog habout
    (hp (h.of_idle ho (ho.status_of_idle hb hidle))) ?_
  · cases hnone.symm.trans hj
  · exact Option.some.inj (hj.symm.trans hv)
  · show (Function.update a.views client v client).held = some b.id
    rw [Function.update_self]
    exact hv

/-- A session that is held is given back or closed. -/
theorem Histories.giveBack (h : Histories a) (ho : Owned a)
    (hi : (a.views client).held = some i) (hv : v.held = none)
    (hstatus : ∀ j, j ≠ i → bc.status j = a.backendClass.status j) {e : Event}
    (hlog : bc.log = e :: a.backendClass.log) (he : e.instanceId = some i)
    (hfollows : Follows i a.backendClass.log (.held client) e p)
    (hof : p.Of (a.moved client bc v) i) : Histories (a.moved client bc v) := by
  obtain ⟨b, hb, -⟩ := ho.find_of_held hi
  obtain ⟨hmem, hid⟩ := mem_of_find hb
  have hlt : i < a.fresh := ho.fresh i (List.mem_map.mpr ⟨b, hmem, hid⟩)
  refine h.touch (l := [e]) (Nat.le_of_lt hlt) (fun j hj => ?_) (fun j hj => ?_) hstatus hlog
    (by simp [he]) ?_ hof
  · exact Option.some.inj (hj.symm.trans hi)
  · cases hv.symm.trans hj
  · rw [hlog]
    exact .cons (h.of_held ho hi) hfollows

theorem answered_about {r : Request} {set : BackendSet} :
    ∀ e ∈ r.answered i set now, ∀ j, e.instanceId = some j → j = i := by
  intro e he j hj
  rw [answered_mem he] at hj
  exact (Option.some.inj hj).symm

theorem status_of_use (client : Client) (huse : SameUse a.backendClass bc)
    (hbc : bc'.status = (bc.useBackend client i).status) (hsome : (bc.status i).isSome)
    (j : InstanceId) (hj : j ≠ i) :
    bc'.status j = a.backendClass.status j := by
  rw [hbc, status_useBackend hsome, Function.update_of_ne hj, huse.status]

theorem histories_move (h : Histories a) (ho : Owned a) (ht : TargetSets cfg a)
    (hm : Moves cfg a.clock a.fresh client a.backendClass (a.views client) bc v) :
    Histories (a.moved client bc v) := by
  have hpresents := (targetSets_move ht ho hm).presents
  generalize hview : a.views client = u at hm
  generalize hclass : a.backendClass = bc0 at hm
  have same {bc : BackendClass} (hs : Same a.backendClass bc) (hv : v.held = (a.views client).held) :
      Histories (a.moved client bc v) :=
    h.keep (l := []) (fun client' => held_update client' hv) hs.use.status (Nat.le_succ _)
      hs.log (by simp)
  cases hm with
  | quiet hs =>
    subst hclass
    exact same hs (by rw [hview])
  | giveUp hs hi =>
    subst hclass
    exact same hs (by rw [hview, hi]; rfl)
  | crash hi hcrash =>
    subst hclass
    obtain ⟨b, hb, huse⟩ := ho.find_of_held (hview ▸ hi)
    simp [hcrash b hb] at huse
  | beginCreate =>
    subst hclass
    exact h.keep (l := []) (fun client' => held_update client' (by rw [hview]; rfl)) rfl
      (Nat.le_succ _) rfl (by simp)
  | created granted hv' hkey hlist hnamed hlog hcreating =>
    subst hclass
    have hheld : v.held = some a.fresh := by rcases hv' with rfl | rfl <;> rfl
    have hnew : History a.fresh (.initAnswered granted :: a.backendClass.log) .new :=
      .cons (h.fresh a.fresh (Nat.le_refl _)) (.elsewhere fun hsome => by cases hsome)
    refine h.touch (l := [.acquired client a.fresh, .initAnswered granted]) (Nat.le_refl _)
      (fun j hj => ?_) (fun j hj => ?_) (fun j hj => ?_) hlog (by simp [Event.instanceId])
      (p := .held client) ?_ ?_
    · rw [hview] at hj
      cases hj
    · exact Option.some.inj (hj.symm.trans hheld)
    · rw [status_append hlist ho.fresh_notMem, Function.update_of_ne hj]
    · rw [hlog]
      exact .cons hnew (.opened rfl)
    · show (Function.update a.views client v client).held = some a.fresh
      rw [Function.update_self]
      exact hheld
  | notCreated granted hkey hlist hnamed hlog hcreating =>
    subst hclass
    refine h.keep (l := [.initAnswered granted])
      (fun client' => held_update client' (by rw [hview]; rfl)) ?_ (Nat.le_succ _) hlog
      (by simp [Event.instanceId])
    funext i
    rw [status, status, find, find, hlist]
  | @take b hb hidle =>
    subst hclass
    have hstatus := ho.status_of_idle hb hidle
    refine h.take (l := [.acquired client b.id]) ho (by rw [hview]; rfl) hb hidle rfl
      (status_of_use client ⟨rfl, rfl⟩ rfl (by simp [hstatus])) rfl (by simp [Event.instanceId])
      fun hp => .cons hp .taken
  | @found b set databases query r hb hidle hset hmatch hquery =>
    subst hclass
    have hstatus := ho.status_of_idle hb hidle
    refine h.take (l := r.answered b.id set a.clock ++ [.acquired client b.id]) ho
      (by rw [hview]; rfl) hb hidle rfl
      (status_of_use client ⟨rfl, rfl⟩ rfl (by simp [hstatus])) ?_
      (fun e he j hj => ?_) fun hp => ?_
    · rw [List.append_assoc]
      rfl
    · rcases List.mem_append.mp he with he | he
      · exact answered_about e he j hj
      · rw [List.mem_singleton.mp he] at hj
        exact (Option.some.inj hj).symm
    · exact r.answered_history set (.cons hp .taken)
  | @replace b set outOfSessions hb hidle hset hrep =>
    subst hclass
    have hstatus := ho.status_of_idle hb hidle
    have huse : SameUse a.backendClass ((a.backendClass.eraseSet b.id set.ptr).record
        [.replaced b.id set.ptr outOfSessions a.clock]) :=
      (sameUse_eraseSet set.ptr).trans (sameUse_record _)
    refine h.take
      (l := [.acquired client b.id, .replaced b.id set.ptr outOfSessions a.clock]) ho
      (by rw [hview]; rfl) hb hidle rfl (status_of_use client huse rfl ?_) rfl
      (by simp [Event.instanceId]) fun hp => .cons (.cons hp .replaced) .taken
    rw [huse.status, hstatus]
    rfl
  | @add b hb hidle hlen =>
    subst hclass
    have hstatus := ho.status_of_idle hb hidle
    have huse : SameUse a.backendClass (a.backendClass.countId b.id) := sameUse_countId
    have hlog : ((a.backendClass.countId b.id).useBackend client b.id).log =
        [.acquired client b.id] ++ a.backendClass.log := by
      rw [BackendClass.useBackend, countId_log]
      rfl
    refine h.take (l := [.acquired client b.id]) ho (by rw [hview]; rfl) hb hidle rfl
      (status_of_use client huse rfl ?_) hlog (by simp [Event.instanceId]) fun hp => ?_
    · rw [huse.status, hstatus]
      rfl
    · rw [hlog]
      exact .cons hp .taken
  | choose hb =>
    subst hclass
    exact h.keep (l := []) (fun client' => held_update client' (by rw [hview]; rfl))
      sameUse_countId.status (Nat.le_succ _) countId_log (by simp)
  | timestamp hi =>
    subst hclass
    exact h.keep (l := []) (fun client' => held_update client' (by rw [hview]))
      (sameUse_timestamp _).status (Nat.le_succ _) rfl (by simp)
  | @send i set hptr hlast =>
    subst hclass
    exact h.use (i := i) (l := [.searchSent i set.resultSetId set.databases set.query]) ho
      (by rw [hview]; rfl) rfl rfl rfl (by simp [Event.instanceId]) fun hp => .cons hp .search
  | @push i set databases query r resultSetSize info =>
    subst hclass
    exact h.use (i := i) ho (by rw [hview]; rfl) rfl (sameUse_pushSet _).status rfl answered_about
      (r.answered_history _)
  | @cached i set databases query =>
    subst hclass
    exact h.use (i := i) (l := [.served i set.ptr a.clock]) ho (by rw [hview]; rfl) rfl rfl rfl
      (by simp [Event.instanceId]) fun hp => .cons hp .served
  | @forward i set databases query =>
    subst hclass
    exact h.use (i := i)
      (l := [.served i set.ptr a.clock, .presentSent i set.resultSetId databases query]) ho
      (by rw [hview]; rfl) rfl rfl rfl (by simp [Event.instanceId])
      fun hp => .cons (.cons hp (.present hpresents.2.1)) .served
  | @release _ i hi =>
    subst hclass
    have hheld := hview ▸ hi
    obtain ⟨b, hb, -⟩ := ho.find_of_held hheld
    have hsome : (a.backendClass.status i).isSome := by simp [status, hb]
    have hstatus : (a.backendClass.releaseBackend client i).status =
        Function.update a.backendClass.status i (some false) := status_releaseBackend hsome
    refine h.giveBack ho hheld rfl (fun j hj => ?_) rfl rfl .released ?_
    · rw [hstatus, Function.update_of_ne hj]
    · show (a.backendClass.releaseBackend client i).status i = some false
      rw [hstatus, Function.update_self]
  | @remove _ i hi =>
    subst hclass
    have hheld := hview ▸ hi
    have hstatus : (a.backendClass.removeBackend client i).status =
        Function.update a.backendClass.status i none := status_removeBackend client
    refine h.giveBack ho hheld rfl (fun j hj => ?_) rfl rfl .removed ?_
    · rw [hstatus, Function.update_of_ne hj]
    · show (a.backendClass.removeBackend client i).status i = none
      rw [hstatus, Function.update_self]

theorem histories_expire (h : Histories a) (ho : Owned a) (now : Time) :
    Histories { a with backendClass := a.backendClass.expireInstances cfg now a.clock } := by
  have hn : ((a.backendClass.backendList.filter (expires cfg now)).map (·.id)).Nodup :=
    ho.nodup.sublist (List.filter_sublist.map _)
  have hold (i : InstanceId) {p : Phase} (hp : History i a.backendClass.log p)
      (hi : i ∉ (a.backendClass.backendList.filter (expires cfg now)).map (·.id)) :
      History i (a.backendClass.expireInstances cfg now a.clock).log p := by
    refine hp.elsewhere fun e he hsome => hi ?_
    obtain ⟨b, hb, rfl⟩ := List.mem_map.mp he
    exact List.mem_map.mpr ⟨b, hb, Option.some.inj hsome⟩
  have hexpired (i : InstanceId)
      (hi : i ∈ (a.backendClass.backendList.filter (expires cfg now)).map (·.id)) :
      ∃ b, a.backendClass.find i = some b ∧ expires cfg now b = true := by
    obtain ⟨b, hb, rfl⟩ := List.mem_map.mp hi
    obtain ⟨hmem, hexp⟩ := List.mem_filter.mp hb
    exact ⟨b, find_of_mem ho.nodup hmem, hexp⟩
  refine ⟨fun i => ?_, fun i hi => hold i (h.fresh i hi) fun hmem => ?_⟩
  · by_cases hmem : i ∈ (a.backendClass.backendList.filter (expires cfg now)).map (·.id)
    · obtain ⟨b, hb, hexp⟩ := hexpired i hmem
      have hidle : a.backendClass.status i = some false := by
        rw [status, hb, Option.map_some, expires_idle hexp]
      refine ⟨.closed, (h.of_idle ho hidle).dropped hn hmem, ?_⟩
      show ((a.backendClass.expireInstances cfg now a.clock).find i).map (·.inUse) = none
      rw [Option.map_eq_none_iff, Option.eq_none_iff_forall_ne_some]
      intro b' hb'
      obtain ⟨hfind, hkept⟩ := (find_expireInstances ho.nodup now a.clock).mp hb'
      cases hb.symm.trans hfind
      cases hexp.symm.trans hkept
    · obtain ⟨p, hp, hof⟩ := h.phase i
      refine ⟨p, hold i hp hmem, ?_⟩
      have hstatus : (a.backendClass.expireInstances cfg now a.clock).status i =
          a.backendClass.status i := by
        refine congrArg _ (Option.ext fun b => ?_)
        refine (find_expireInstances ho.nodup now a.clock).trans (and_iff_left_of_imp fun hb => ?_)
        by_contra hexp
        obtain ⟨hlisted, hid⟩ := mem_of_find hb
        exact hmem (List.mem_map.mpr
          ⟨b, List.mem_filter.mpr ⟨hlisted, Bool.not_eq_false _ ▸ hexp⟩, hid⟩)
      cases p with
      | new => exact hstatus.trans hof
      | idle => exact hstatus.trans hof
      | held client => exact hof
      | closed => exact hstatus.trans hof
  · obtain ⟨b, hb, -⟩ := hexpired i hmem
    obtain ⟨hlisted, hid⟩ := mem_of_find hb
    exact Nat.not_lt_of_le hi (ho.fresh i (List.mem_map.mpr ⟨b, hlisted, hid⟩))

theorem histories_new (h : a.New) : Histories a := by
  obtain ⟨⟨key, hbc⟩, hviews⟩ := h
  have hnew (i : InstanceId) : History i a.backendClass.log .new := by
    rw [hbc]
    exact .nil
  refine ⟨fun i => ⟨.new, hnew i, ?_⟩, fun i _ => hnew i⟩
  show a.backendClass.status i = none
  rw [hbc]
  rfl

/-! ## Runs -/

theorem histories_of_reach {ok : St → Label → Prop} {s : St} (h : Reach (step cfg) init ok s) :
    ∀ c < s.made, Histories (s.classAt c) := by
  refine fun c hc => (classInvariant
    (I := fun a => Owned a ∧ TargetSets cfg a ∧ Histories a)
    (fun a hnew => ⟨owned_new hnew, targetSets_new hnew, histories_new hnew⟩)
    (fun a a' ⟨ho, ht, hh⟩ hs => ?_) h c hc).2.2
  refine ⟨owned_step ho hs, ?_⟩
  cases hs with
  | rest hsame hviews hfresh =>
    exact ⟨targetSets_rest ht hsame hviews, hh.keep (l := []) (fun client => by rw [hviews])
      hsame.use.status hfresh hsame.log (by simp)⟩
  | move client hm => exact ⟨targetSets_move ht ho hm, histories_move hh ho ht hm⟩
  | expire now => exact ⟨targetSets_expire ht ho now, histories_expire hh ho now⟩

/-- In every run, what has happened to the session of any instance is a history of the protocol, and
the class has the instance as the history says. -/
theorem session_histories {s : St} (h : Reach (step cfg) init Any s) {c : Nat} (hc : c < s.made)
    (i : InstanceId) :
    ∃ p : Phase, History i (s.classes c).log p ∧ p.Of (s.classAt c) i :=
  (histories_of_reach h c hc).phase i

/-- The present of `twoSearches` is answered, and much later the worker closes the session. -/
def presentedAndDropped : List Label :=
  twoSearches ++ [.thread 0 (.presented (some []))] ++ goes 0 1 ++
    [.clock 1000, .worker, .worker, .worker]

theorem session_histories_dropped : ∃ s, Reach (step .default) init Any s ∧
    (s.classes 0).log.head? = some (.dropped 2 1000) ∧
    ∃ p : Phase, History 2 (s.classes 0).log p ∧ p.Of (s.classAt 0) 2 := by
  have hrun : (run (step .default) St.start presentedAndDropped).any (fun s => s.made = 1 ∧
      (s.classes 0).log.head? = some (.dropped 2 1000)) = true := by decide
  obtain ⟨s, hr, hp⟩ := Reach.exists_of_run init_start (runOk_any _ _) hrun
  simp only [decide_eq_true_eq] at hp
  exact ⟨s, hr, hp.2, session_histories hr (by omega) 2⟩

end SessionShared
end Metaproxy
