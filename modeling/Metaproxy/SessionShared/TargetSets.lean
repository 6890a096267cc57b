import Metaproxy.SessionShared.Ownership

/-!
# SessionShared.TargetSets

The result sets at the targets. In every run, whatever the init responses grant and however the
searches end, the sets of an instance have ids of their own, each was made by the last search that
was sent under its id, and no instance has more sets than `setBound` (`targetSets_of_reach`). So a
present goes to a result set of the query that it is for (`presents_match`).

* `SetsOk` — what holds of an instance, whoever holds it.
* `ViewOk` — what a client knows about the instance it holds, by where it is in `get_set`.
-/

namespace Metaproxy
namespace SessionShared

open Lib BackendClass

/-! ## Names of result sets -/

theorem sequence_name_ne (n : Nat) : (ResultSetId.sequence n).name ≠ ResultSetId.default.name := by
  intro h
  have hmem : 'd' ∈ Nat.toDigits 10 n := by
    have hlist : (toString n).toList = "default".toList := congrArg String.toList h
    rw [← Nat.toList_repr, ← Nat.toString_eq_repr, hlist]
    decide
  have hdigit := Nat.isDigit_of_mem_toDigits (by decide) (by decide) hmem
  revert hdigit
  decide

theorem name_injective : Function.Injective ResultSetId.name := by
  intro id id' h
  cases id with
  | default =>
    cases id' with
    | default => rfl
    | sequence n => exact absurd h.symm (sequence_name_ne n)
  | sequence n =>
    cases id' with
    | default => exact absurd h (sequence_name_ne n)
    | sequence m =>
      have hlist : (toString n).toList = (toString m).toList := congrArg String.toList h
      rw [Nat.toString_eq_repr, Nat.toString_eq_repr, Nat.toList_repr, Nat.toList_repr] at hlist
      have hval := congrArg (fun l => Nat.ofDigitChars 10 l 0) hlist
      simp only [Nat.ofDigitChars_ten_toDigits] at hval
      rw [hval]

/-! ## What the target has been sent -/

/-- Databases and query of the last search that was sent on the session of `i` under the name. -/
def lastSearch (i : InstanceId) (name : String) : List Event → Option (List String × Query)
  | [] => none
  | .searchSent i' id databases query :: log =>
    if i' = i ∧ id.name = name then some (databases, query) else lastSearch i name log
  | _ :: log => lastSearch i name log

/-- The result set that a present addresses was made by a search for the same query and databases. -/
def Addressed (log : List Event) : Event → Prop
  | .presentSent i id databases query =>
    ∃ databases', lastSearch i id.name log = some (databases', query) ∧
      Util.match_ databases' databases = true
  | _ => True

/-- Every present of the log is addressed to a result set of its query. -/
def PresentsMatch : List Event → Prop
  | [] => True
  | e :: log => Addressed log e ∧ PresentsMatch log

/-- An init response of the class has granted named result sets. -/
def Granted (bc : BackendClass) : Prop := .initAnswered true ∈ bc.log

instance (bc : BackendClass) : Decidable (Granted bc) :=
  inferInstanceAs (Decidable (_ ∈ bc.log))

def setBound (cfg : Config) (bc : BackendClass) : Nat :=
  if Granted bc then max 1 cfg.resultsetMax else 1

def BackendInstance.names (b : BackendInstance) : List String := b.sets.map (·.resultSetId.name)

structure SetsOk (cfg : Config) (bc : BackendClass) (b : BackendInstance) : Prop where
  distinct : b.names.Nodup
  numbered : ∀ set ∈ b.sets, ∀ n, set.resultSetId = .sequence n → n < b.resultSetSequence
  bounded : b.sets.length ≤ setBound cfg bc
  searched : ∀ set ∈ b.sets,
    lastSearch b.id set.resultSetId.name bc.log = some (set.databases, set.query)

/-- A set with the id may be added. -/
structure Room (cfg : Config) (bc : BackendClass) (b : BackendInstance) (id : ResultSetId) :
    Prop where
  unused : id.name ∉ b.names
  numbered : ∀ n, id = .sequence n → n < b.resultSetSequence
  bounded : b.sets.length < setBound cfg bc

/-- What the client knows about the instance it holds. -/
def ViewOk (cfg : Config) (bc : BackendClass) (b : BackendInstance) : View → Prop
  | .fresh _ => b.sets = []
  | .reserved _ id => Room cfg bc b id
  | .searching _ set databases query =>
    Room cfg bc b set.resultSetId ∧
      lastSearch b.id set.resultSetId.name bc.log = some (set.databases, set.query) ∧
      databases = set.databases ∧ query = set.query
  | .serving _ set databases query =>
    set ∈ b.sets ∧ Util.match_ set.databases databases = true ∧ query = set.query
  | .away | .creating | .engaged _ => True

structure TargetSets (cfg : Config) (a : ClassState) : Prop where
  named : a.backendClass.namedResultSets = true → Granted a.backendClass
  sets : ∀ i b, a.backendClass.find i = some b → SetsOk cfg a.backendClass b
  views : ∀ client i b, (a.views client).held = some i → a.backendClass.find i = some b →
    ViewOk cfg a.backendClass b (a.views client)
  presents : PresentsMatch a.backendClass.log

variable {cfg : Config} {bc bc' : BackendClass} {b b' : BackendInstance} {i j : InstanceId}
  {id : ResultSetId} {v : View} {client : Client} {a a' : ClassState} {now : Time}

theorem one_le_setBound : 1 ≤ setBound cfg bc := by
  unfold setBound
  split
  · exact Nat.le_max_left _ _
  · exact Nat.le_refl 1

theorem setBound_mono (h : Granted bc → Granted bc') : setBound cfg bc ≤ setBound cfg bc' := by
  by_cases hg : Granted bc
  · unfold setBound
    rw [if_pos hg, if_pos (h hg)]
  · have hone : setBound cfg bc = 1 := if_neg hg
    rw [hone]
    exact one_le_setBound

theorem maxSets_le (h : bc.namedResultSets = true → Granted bc) :
    maxSets cfg bc ≤ setBound cfg bc := by
  unfold maxSets
  split
  · rename_i hnamed
    unfold setBound
    rw [if_pos (h hnamed)]
    exact Nat.le_max_right _ _
  · exact one_le_setBound

/-! ## Frames -/

/-- The instance, and what was sent for it, is as before. -/
structure Untouched (cfg : Config) (bc bc' : BackendClass) (i : InstanceId) : Prop where
  search : ∀ name, lastSearch i name bc'.log = lastSearch i name bc.log
  granted : Granted bc → Granted bc'

theorem SetsOk.untouched (h : SetsOk cfg bc b) (hu : Untouched cfg bc bc' b.id) :
    SetsOk cfg bc' b where
  distinct := h.distinct
  numbered := h.numbered
  bounded := Nat.le_trans h.bounded (setBound_mono hu.granted)
  searched set hset := by
    rw [hu.search]
    exact h.searched set hset

theorem Room.untouched (h : Room cfg bc b id) (hu : Untouched cfg bc bc' b.id) :
    Room cfg bc' b id :=
  ⟨h.unused, h.numbered, Nat.lt_of_lt_of_le h.bounded (setBound_mono hu.granted)⟩

theorem ViewOk.untouched (h : ViewOk cfg bc b v) (hu : Untouched cfg bc bc' b.id) :
    ViewOk cfg bc' b v := by
  cases v with
  | fresh i => exact h
  | reserved i id => exact Room.untouched h hu
  | searching i set databases query =>
    obtain ⟨hroom, hlast, hrest⟩ := h
    refine ⟨hroom.untouched hu, ?_, hrest⟩
    rw [hu.search]
    exact hlast
  | serving i set databases query => exact h
  | _ => trivial

/-- An instance that differs in neither its sets nor its counter. -/
structure SameSets (b b' : BackendInstance) : Prop where
  id : b'.id = b.id
  sets : b'.sets = b.sets
  sequence : b'.resultSetSequence = b.resultSetSequence

theorem SetsOk.same (h : SetsOk cfg bc b) (hs : SameSets b b') : SetsOk cfg bc b' where
  distinct := by
    unfold BackendInstance.names
    rw [hs.sets]
    exact h.distinct
  numbered := by
    rw [hs.sets, hs.sequence]
    exact h.numbered
  bounded := hs.sets ▸ h.bounded
  searched := by
    rw [hs.sets, hs.id]
    exact h.searched

theorem Room.same (h : Room cfg bc b id) (hs : SameSets b b') : Room cfg bc b' id where
  unused := by
    unfold BackendInstance.names
    rw [hs.sets]
    exact h.unused
  numbered := hs.sequence ▸ h.numbered
  bounded := hs.sets ▸ h.bounded

theorem ViewOk.same (h : ViewOk cfg bc b v) (hs : SameSets b b') : ViewOk cfg bc b' v := by
  cases v with
  | fresh i => exact hs.sets.trans h
  | reserved i id => exact Room.same h hs
  | searching i set databases query =>
    obtain ⟨hroom, hlast, hrest⟩ := h
    exact ⟨hroom.same hs, by rw [hs.id]; exact hlast, hrest⟩
  | serving i set databases query =>
    obtain ⟨hset, hrest⟩ := h
    exact ⟨by rw [hs.sets]; exact hset, hrest⟩
  | _ => trivial

theorem ViewOk.of_held_none (h : v.held = none) : ViewOk cfg bc b v := by
  cases v <;> trivial

theorem PresentsMatch.append {events log : List Event} (h : PresentsMatch log)
    (he : ∀ e ∈ events, ∀ log, Addressed log e) : PresentsMatch (events ++ log) := by
  induction events with
  | nil => exact h
  | cons e events ih =>
    exact ⟨he e (by simp) _, ih fun e' he' => he e' (by simp [he'])⟩

/-- Neither a search nor a present is sent. -/
def Event.Quiet : Event → Prop
  | .searchSent .. | .presentSent .. => False
  | _ => True

theorem lastSearch_append {events log : List Event} {name : String}
    (h : ∀ e ∈ events, e.Quiet) : lastSearch i name (events ++ log) = lastSearch i name log := by
  induction events with
  | nil => rfl
  | cons e events ih =>
    have he := h e (by simp)
    have htail := ih fun e' he' => h e' (by simp [he'])
    cases e <;> first | exact he.elim | exact htail

theorem PresentsMatch.quiet {events log : List Event} (h : PresentsMatch log)
    (he : ∀ e ∈ events, e.Quiet) : PresentsMatch (events ++ log) :=
  h.append fun e hmem log => by
    have hq := he e hmem
    cases e <;> first | exact hq.elim | trivial

theorem untouched_quiet {events : List Event} (hlog : bc'.log = events ++ bc.log)
    (he : ∀ e ∈ events, e.Quiet) : Untouched cfg bc bc' i where
  search name := by rw [hlog, lastSearch_append he]
  granted hg := by
    unfold Granted
    rw [hlog]
    exact List.mem_append_right _ hg

/-! ## One step -/

/-- The move of a client about the one instance `i`, which no other client holds. -/
structure Touches (cfg : Config) (a : ClassState) (client : Client) (bc : BackendClass) (v : View)
    (i : InstanceId) : Prop where
  others : ∀ client', client' ≠ client → (a.views client').held ≠ some i
  held : ∀ j, v.held = some j → j = i
  frame : ∀ j, j ≠ i → bc.find j = a.backendClass.find j
  untouched : ∀ j, j ≠ i → Untouched cfg a.backendClass bc j
  named : bc.namedResultSets = true → Granted bc
  sets : ∀ b, bc.find i = some b → SetsOk cfg bc b
  view : ∀ b, bc.find i = some b → ViewOk cfg bc b v
  presents : PresentsMatch bc.log

theorem TargetSets.touch (h : TargetSets cfg a) (ht : Touches cfg a client bc v i) :
    TargetSets cfg (a.moved client bc v) where
  named := ht.named
  sets j b hb := by
    by_cases hj : j = i
    · subst hj
      exact ht.sets b hb
    · have hold : a.backendClass.find j = some b := ht.frame j hj ▸ hb
      have hid := (mem_of_find hold).2
      exact (h.sets j b hold).untouched (hid ▸ ht.untouched j hj)
  views client' j b hv hb := by
    simp only at hv hb ⊢
    by_cases hc : client' = client
    · subst hc
      rw [Function.update_self] at hv ⊢
      have hj := ht.held j hv
      subst hj
      exact ht.view b hb
    · rw [Function.update_of_ne hc] at hv ⊢
      have hj : j ≠ i := fun heq => ht.others client' hc (heq ▸ hv)
      have hold : a.backendClass.find j = some b := ht.frame j hj ▸ hb
      have hid := (mem_of_find hold).2
      exact (h.views client' j b hv hold).untouched (hid ▸ ht.untouched j hj)
  presents := ht.presents

theorem Owned.others_of_held (h : Owned a) (hv : (a.views client).held = some i)
    (client' : Client) (hne : client' ≠ client) : (a.views client').held ≠ some i :=
  fun hv' => hne (h.sound.unique client' client i hv' hv)

theorem Owned.others_of_status (h : Owned a) (hi : a.backendClass.status i ≠ some true)
    (client' : Client) : (a.views client').held ≠ some i :=
  fun hv => hi (h.sound.inUse client' i hv)

theorem Owned.others_of_new (h : Owned a) (hi : i ∉ a.backendClass.ids) (client' : Client) :
    (a.views client').held ≠ some i :=
  h.others_of_status (by simp [status, find_none hi]) client'

theorem Owned.others_of_idle (h : Owned a) (hb : b ∈ a.backendClass.backendList)
    (hidle : b.inUse = false) (client' : Client) : (a.views client').held ≠ some b.id :=
  h.others_of_status (by simp [h.status_of_idle hb hidle]) client'

/-- The class differs in an instance `i` of the client, whose sets stay, and in quiet events. -/
theorem TargetSets.quietMove (f : BackendInstance → BackendInstance) (events : List Event)
    (h : TargetSets cfg a)
    (hothers : ∀ client', client' ≠ client → (a.views client').held ≠ some i)
    (hheld : ∀ j, v.held = some j → j = i) (hf : ∀ b, SameSets b (f b))
    (hfind : ∀ j, bc.find j = (a.backendClass.modify i f).find j)
    (hlog : bc.log = events ++ a.backendClass.log) (he : ∀ e ∈ events, e.Quiet)
    (hnamed : bc.namedResultSets = a.backendClass.namedResultSets)
    (hview : ∀ b, a.backendClass.find i = some b → ViewOk cfg a.backendClass b v) :
    TargetSets cfg (a.moved client bc v) := by
  have hid : ∀ b, (f b).id = b.id := fun b => (hf b).id
  have hunt : ∀ j, Untouched cfg a.backendClass bc j := fun j => untouched_quiet hlog he
  have hme : ∀ b', bc.find i = some b' → ∃ b, a.backendClass.find i = some b ∧ b' = f b := by
    intro b' hb'
    rw [hfind, find_modify hid, if_pos rfl] at hb'
    obtain ⟨b, hb, rfl⟩ := Option.map_eq_some_iff.mp hb'
    exact ⟨b, hb, rfl⟩
  refine h.touch ⟨hothers, hheld, fun j hj => ?_, fun j _ => hunt j, fun hn => ?_, fun b' hb' => ?_,
    fun b' hb' => ?_, ?_⟩
  · rw [hfind, find_modify hid, if_neg hj]
  · exact (hunt i).granted (h.named (hnamed ▸ hn))
  · obtain ⟨b, hb, rfl⟩ := hme b' hb'
    exact ((h.sets i b hb).same (hf b)).untouched (hunt _)
  · obtain ⟨b, hb, rfl⟩ := hme b' hb'
    exact ((hview b hb).same (hf b)).untouched (hunt _)
  · rw [hlog]
    exact h.presents.quiet he

theorem SameSets.rfl : SameSets b b := ⟨by trivial, by trivial, by trivial⟩

/-- Sets and log stay as they are, and what the client knows about its instance with them. -/
theorem TargetSets.same (h : TargetSets cfg a) (hs : Same a.backendClass bc)
    (hothers : ∀ client', client' ≠ client → (a.views client').held ≠ some i)
    (hheld : ∀ j, v.held = some j → j = i)
    (hview : ∀ b, a.backendClass.find i = some b → ViewOk cfg a.backendClass b v) :
    TargetSets cfg (a.moved client bc v) := by
  refine TargetSets.quietMove (fun b => b) [] h hothers hheld (fun _ => SameSets.rfl) (fun j => ?_)
    hs.log (by simp) hs.namedResultSets hview
  unfold BackendClass.find BackendClass.modify
  rw [hs.backendList]
  simp

/-! ### The new set -/

theorem nextId_room (hs : SetsOk cfg bc b) (hnamed : bc.namedResultSets = true → Granted bc)
    (hlen : b.sets.length < maxSets cfg bc ∨ b.sets = []) (hsets : b'.sets = b.sets)
    (hseq : b'.resultSetSequence =
      if bc.namedResultSets then b.resultSetSequence + 1 else b.resultSetSequence) :
    Room cfg bc b' (nextId bc b) := by
  have hbound : b.sets.length < setBound cfg bc := by
    rcases hlen with hlt | hnil
    · exact Nat.lt_of_lt_of_le hlt (maxSets_le hnamed)
    · rw [hnil]
      exact one_le_setBound
  cases hn : bc.namedResultSets with
  | true =>
    have hnext : nextId bc b = .sequence b.resultSetSequence := by simp [nextId, hn]
    rw [if_pos hn] at hseq
    refine ⟨fun hmem => ?_, fun n hn' => ?_, hsets ▸ hbound⟩
    · unfold BackendInstance.names at hmem
      rw [hsets] at hmem
      obtain ⟨set, hset, hname⟩ := List.mem_map.mp hmem
      have heq := name_injective hname
      rw [hnext] at heq
      exact Nat.lt_irrefl _ (hs.numbered set hset _ heq)
    · rw [hnext] at hn'
      cases hn'
      omega
  | false =>
    have hnil : b.sets = [] := by
      rcases hlen with hlt | hnil
      · have hmax : maxSets cfg bc = 1 := by simp [maxSets, hn]
        exact List.length_eq_zero_iff.mp (by omega)
      · exact hnil
    refine ⟨by simp [BackendInstance.names, hsets, hnil], fun n hn' => ?_, hsets ▸ hbound⟩
    simp [nextId, hn] at hn'

/-- The evicted set leaves its id to the new one. -/
theorem eraseSet_room {set : BackendSet} (hs : SetsOk cfg bc b) (hset : set ∈ b.sets)
    (hid : b'.id = b.id) (hsets : b'.sets = b.sets.filter fun s => s.ptr ≠ set.ptr)
    (hseq : b'.resultSetSequence = b.resultSetSequence) :
    SetsOk cfg bc b' ∧ Room cfg bc b' set.resultSetId := by
  have hsub : b'.sets.Sublist b.sets := hsets ▸ List.filter_sublist
  have hlt : b'.sets.length < b.sets.length := by
    rw [hsets]
    exact List.length_filter_lt_length_iff_exists.mpr ⟨set, hset, by simp⟩
  refine ⟨⟨hs.distinct.sublist (hsub.map _), fun s hmem => ?_, ?_, fun s hmem => ?_⟩,
    fun hmem => ?_, fun n hn => ?_, Nat.lt_of_lt_of_le hlt hs.bounded⟩
  · rw [hseq]
    exact hs.numbered s (hsub.subset hmem)
  · exact Nat.le_trans (Nat.le_of_lt hlt) hs.bounded
  · rw [hid]
    exact hs.searched s (hsub.subset hmem)
  · obtain ⟨s, hs', hname⟩ := List.mem_map.mp hmem
    have heq : s = set := List.inj_on_of_nodup_map hs.distinct (hsub.subset hs') hset hname
    rw [hsets, List.mem_filter] at hs'
    simp [heq] at hs'
  · rw [hseq]
    exact hs.numbered set hset n hn

theorem lastSearch_sent {i' : InstanceId} {databases : List String} {query : Query}
    {name : String} {log : List Event} :
    lastSearch i name (.searchSent i' id databases query :: log) =
      if i' = i ∧ id.name = name then some (databases, query) else lastSearch i name log := rfl

/-- The search for a set that there is room for leaves the sets of the instance as they are. -/
theorem SetsOk.send {set : BackendSet} (hs : SetsOk cfg bc b)
    (hroom : Room cfg bc b set.resultSetId) :
    SetsOk cfg (bc.record [.searchSent i set.resultSetId set.databases set.query]) b where
  distinct := hs.distinct
  numbered := hs.numbered
  bounded := Nat.le_trans hs.bounded (setBound_mono fun hg => List.mem_cons_of_mem _ hg)
  searched s hmem := by
    have hne : set.resultSetId.name ≠ s.resultSetId.name := fun heq =>
      hroom.unused (List.mem_map.mpr ⟨s, hmem, heq.symm⟩)
    rw [record, List.cons_append, List.nil_append, lastSearch_sent, if_neg (fun h => hne h.2)]
    exact hs.searched s hmem

/-- The set that has been searched for is added. -/
theorem SetsOk.push {set : BackendSet} (hs : SetsOk cfg bc b)
    (hroom : Room cfg bc b set.resultSetId)
    (hlast : lastSearch b.id set.resultSetId.name bc.log = some (set.databases, set.query))
    (hid : b'.id = b.id) (hsets : b'.sets = b.sets ++ [set])
    (hseq : b'.resultSetSequence = b.resultSetSequence) : SetsOk cfg bc b' where
  distinct := by
    unfold BackendInstance.names
    rw [hsets, List.map_append, List.map_singleton]
    refine List.nodup_append.mpr ⟨hs.distinct, by simp, ?_⟩
    intro x hx y hy heq
    rw [List.mem_singleton.mp hy] at heq
    exact hroom.unused (heq ▸ hx)
  numbered s hmem n hn := by
    rw [hseq]
    rw [hsets] at hmem
    rcases List.mem_append.mp hmem with hold | hnew
    · exact hs.numbered s hold n hn
    · rw [List.mem_singleton.mp hnew] at hn
      exact hroom.numbered n hn
  bounded := by
    rw [hsets, List.length_append, List.length_singleton]
    exact hroom.bounded
  searched s hmem := by
    rw [hid]
    rw [hsets] at hmem
    rcases List.mem_append.mp hmem with hold | hnew
    · exact hs.searched s hold
    · rw [List.mem_singleton.mp hnew]
      exact hlast

/-! ### The moves -/

theorem targetSets_new (h : a.New) : TargetSets cfg a := by
  obtain ⟨⟨key, hbc⟩, hviews⟩ := h
  refine ⟨by simp [hbc, BackendClass.new], fun i b hb => ?_, fun client i b hv _ => ?_, ?_⟩
  · simp [hbc, find, BackendClass.new] at hb
  · simp [hviews client, View.held] at hv
  · rw [hbc]
    trivial

theorem quiet_answered {r : Request} {set : BackendSet} :
    ∀ e ∈ r.answered i set now, e.Quiet := by
  intro e he
  rw [answered_mem he]
  trivial

theorem countId_named : (bc.countId i).namedResultSets = bc.namedResultSets := by
  unfold countId
  split <;> rfl

theorem targetSets_created (h : TargetSets cfg a) (ho : Owned a) {granted : Bool}
    (hv : v = .fresh a.fresh ∨ v = .engaged a.fresh)
    (hlist : bc.backendList = a.backendClass.backendList ++ [⟨a.fresh, [], true, 0, 0, now⟩])
    (hnamed : bc.namedResultSets = granted)
    (hlog : bc.log = .acquired client a.fresh :: .initAnswered granted :: a.backendClass.log) :
    TargetSets cfg (a.moved client bc v) := by
  have hnot := ho.fresh_notMem
  have hquiet : ∀ e ∈ [Event.acquired client a.fresh, .initAnswered granted], e.Quiet := by
    intro e he
    rcases List.mem_cons.mp he with rfl | he
    · trivial
    · rw [List.mem_singleton.mp he]
      trivial
  have hlog' : bc.log = [Event.acquired client a.fresh, .initAnswered granted] ++
    a.backendClass.log := hlog
  have hme : ∀ b, bc.find a.fresh = some b → b.sets = [] := by
    intro b hb
    rw [find_append hlist hnot, if_pos rfl] at hb
    cases hb
    rfl
  refine h.touch ⟨fun client' _ => ho.others_of_new hnot client', fun j hj => ?_, fun j hj => ?_,
    fun j _ => untouched_quiet hlog' hquiet, fun hn => ?_, fun b hb => ?_, fun b hb => ?_, ?_⟩
  · rcases hv with rfl | rfl <;> exact (Option.some.inj hj).symm
  · rw [find_append hlist hnot, if_neg hj]
  · rw [hnamed] at hn
    unfold Granted
    rw [hlog, hn]
    simp
  · have hnil := hme b hb
    refine ⟨by simp [BackendInstance.names, hnil], by simp [hnil], by simp [hnil], by simp [hnil]⟩
  · rcases hv with rfl | rfl
    · exact hme b hb
    · trivial
  · rw [hlog']
    exact h.presents.quiet hquiet

theorem targetSets_notCreated (h : TargetSets cfg a) (ho : Owned a) {granted : Bool}
    (hlist : bc.backendList = a.backendClass.backendList) (hnamed : bc.namedResultSets = granted)
    (hlog : bc.log = .initAnswered granted :: a.backendClass.log) :
    TargetSets cfg (a.moved client bc .away) := by
  have hnot := ho.fresh_notMem
  have hquiet : ∀ e ∈ [Event.initAnswered granted], e.Quiet := by
    intro e he
    rw [List.mem_singleton.mp he]
    trivial
  have hlog' : bc.log = [Event.initAnswered granted] ++ a.backendClass.log := hlog
  have hfind : ∀ j, bc.find j = a.backendClass.find j := fun j => by rw [find, find, hlist]
  -- no instance is concerned: take a number that none has
  refine h.touch (i := a.fresh)
    ⟨fun client' _ => ho.others_of_new hnot client', fun j hj => (by cases hj), fun j _ => hfind j,
      fun j _ => untouched_quiet hlog' hquiet, fun hn => ?_, fun b hb => ?_,
    fun b hb => trivial, ?_⟩
  · rw [hnamed] at hn
    unfold Granted
    rw [hlog, hn]
    simp
  · rw [hfind, find_none hnot] at hb
    cases hb
  · rw [hlog']
    exact h.presents.quiet hquiet

theorem targetSets_replace (h : TargetSets cfg a) (ho : Owned a) {set : BackendSet}
    (hb : b ∈ a.backendClass.backendList) (hidle : b.inUse = false) (hset : set ∈ b.sets)
    (outOfSessions : Bool) :
    TargetSets cfg (a.moved client
      (((a.backendClass.eraseSet b.id set.ptr).record
        [.replaced b.id set.ptr outOfSessions a.clock]).useBackend client b.id)
      (.reserved b.id set.resultSetId)) := by
  have hfind := find_of_mem ho.nodup hb
  have hquiet : ∀ e ∈ [Event.acquired client b.id, .replaced b.id set.ptr outOfSessions a.clock],
      e.Quiet := by
    intro e he
    rcases List.mem_cons.mp he with rfl | he
    · trivial
    · rw [List.mem_singleton.mp he]
      trivial
  generalize hbc : ((a.backendClass.eraseSet b.id set.ptr).record
    [.replaced b.id set.ptr outOfSessions a.clock]).useBackend client b.id = bc
  have hlog : bc.log = [Event.acquired client b.id, .replaced b.id set.ptr outOfSessions a.clock] ++
      a.backendClass.log := by rw [← hbc]; rfl
  have hunt : ∀ j, Untouched cfg a.backendClass bc j := fun j => untouched_quiet hlog hquiet
  have hfind' : ∀ j, bc.find j = if j = b.id then some { b with
      sets := b.sets.filter fun s => s.ptr ≠ set.ptr
      inUse := true
      sequenceThis := a.backendClass.sequenceTop } else a.backendClass.find j := by
    intro j
    rw [← hbc, find_useBackend, find_record, find_eraseSet]
    by_cases hj : j = b.id
    · simp only [hj, if_pos, hfind, Option.map_some]
      rfl
    · simp only [hj, if_false]
  have hme : ∀ b', bc.find b.id = some b' →
      SetsOk cfg bc b' ∧ Room cfg bc b' set.resultSetId := by
    intro b' hb'
    rw [hfind', if_pos rfl] at hb'
    cases hb'
    generalize hb0 : ({ b with
      sets := b.sets.filter fun s => s.ptr ≠ set.ptr
      inUse := true
      sequenceThis := a.backendClass.sequenceTop } : BackendInstance) = b0
    obtain ⟨hs, hroom⟩ : SetsOk cfg a.backendClass b0 ∧ Room cfg a.backendClass b0 set.resultSetId :=
      eraseSet_room (h.sets _ _ hfind) hset (by rw [← hb0]) (by rw [← hb0]) (by rw [← hb0])
    exact ⟨hs.untouched (hunt _), hroom.untouched (hunt _)⟩
  refine h.touch ⟨fun client' _ => ho.others_of_idle hb hidle client',
    fun j hj => (Option.some.inj hj).symm, fun j hj => ?_, fun j _ => hunt j, fun hn => ?_,
    fun b' hb' => (hme b' hb').1, fun b' hb' => (hme b' hb').2, ?_⟩
  · rw [hfind', if_neg hj]
  · refine (hunt b.id).granted (h.named ?_)
    rw [← hbc] at hn
    exact hn
  · rw [hlog]
    exact h.presents.quiet hquiet

/-- An instance gets the next id, and is perhaps taken into use. -/
theorem targetSets_nextId (f : BackendInstance → BackendInstance) (events : List Event)
    (h : TargetSets cfg a) (ho : Owned a)
    (hb : b ∈ a.backendClass.backendList)
    (hothers : ∀ client', client' ≠ client → (a.views client').held ≠ some b.id)
    (hlen : b.sets.length < maxSets cfg a.backendClass ∨ b.sets = [])
    (hf : ∀ b, SameSets b (f b))
    (hfind' : ∀ j, bc.find j = ((a.backendClass.countId b.id).modify b.id f).find j)
    (hlog : bc.log = events ++ a.backendClass.log) (hquiet : ∀ e ∈ events, e.Quiet)
    (hnamed : bc.namedResultSets = a.backendClass.namedResultSets) :
    TargetSets cfg (a.moved client bc (.reserved b.id (nextId a.backendClass b))) := by
  have hfind := find_of_mem ho.nodup hb
  have hunt : ∀ j, Untouched cfg a.backendClass bc j := fun j => untouched_quiet hlog hquiet
  have hold := h.sets _ _ hfind
  have hme : ∀ b', bc.find b.id = some b' →
      SetsOk cfg bc b' ∧ Room cfg bc b' (nextId a.backendClass b) := by
    intro b' hb'
    rw [hfind', find_modify fun b => (hf b).id, if_pos rfl, find_countId, if_pos rfl, hfind,
      Option.map_some, Option.map_some] at hb'
    cases hb'
    generalize hb0 : ({ b with resultSetSequence := if a.backendClass.namedResultSets then
      b.resultSetSequence + 1 else b.resultSetSequence } : BackendInstance) = b0
    have hroom : Room cfg a.backendClass b0 (nextId a.backendClass b) :=
      nextId_room hold h.named hlen (by rw [← hb0]) (by rw [← hb0])
    have hs : SetsOk cfg a.backendClass b0 := by
      rw [← hb0]
      refine ⟨hold.distinct, fun set hset n hn => ?_, hold.bounded, hold.searched⟩
      have hlt := hold.numbered set hset n hn
      simp only
      split <;> omega
    exact ⟨(hs.same (hf b0)).untouched (hunt _), (hroom.same (hf b0)).untouched (hunt _)⟩
  refine h.touch ⟨hothers, fun j hj => (Option.some.inj hj).symm, fun j hj => ?_, fun j _ => hunt j,
    fun hn => (hunt b.id).granted (h.named (hnamed ▸ hn)),
    fun b' hb' => (hme b' hb').1, fun b' hb' => (hme b' hb').2, ?_⟩
  · rw [hfind', find_modify fun b => (hf b).id, if_neg hj, find_countId, if_neg hj]
  · rw [hlog]
    exact h.presents.quiet hquiet

/-- The client sends a search for its new set. -/
theorem targetSets_send (h : TargetSets cfg a) (ho : Owned a) {set : BackendSet}
    (hview : a.views client = .reserved i set.resultSetId) :
    TargetSets cfg (a.moved client
      (a.backendClass.record [.searchSent i set.resultSetId set.databases set.query])
      (.searching i set set.databases set.query)) := by
  have hi : (a.views client).held = some i := by rw [hview]; rfl
  have hroom : ∀ b, a.backendClass.find i = some b → Room cfg a.backendClass b set.resultSetId := by
    intro b hb
    have hknown := h.views client i b hi hb
    rwa [hview] at hknown
  refine h.touch ⟨ho.others_of_held hi, fun j hj => (Option.some.inj hj).symm, fun j _ => rfl,
    fun j hj => ⟨fun name => ?_, fun hg => List.mem_cons_of_mem _ hg⟩,
    fun hn => List.mem_cons_of_mem _ (h.named hn), fun b hb => ?_, fun b hb => ?_, ?_⟩
  · rw [record, List.cons_append, List.nil_append, lastSearch_sent,
      if_neg fun heq => hj heq.1.symm]
  · exact (h.sets i b hb).send (hroom b hb)
  · have hid := (mem_of_find hb).2
    have hr := hroom b hb
    refine ⟨⟨hr.unused, hr.numbered, Nat.lt_of_lt_of_le hr.bounded
      (setBound_mono fun hg => List.mem_cons_of_mem _ hg)⟩, ?_, rfl, rfl⟩
    rw [record, List.cons_append, List.nil_append, lastSearch_sent, if_pos ⟨hid.symm, rfl⟩]
  · exact ⟨trivial, h.presents⟩

/-- The set that was searched goes to the instance. -/
theorem targetSets_push (h : TargetSets cfg a) (ho : Owned a) {set set' : BackendSet}
    {databases : List String} {query : Query}
    (hview : a.views client = .searching i set databases query) (r : Request)
    (hid : set'.resultSetId = set.resultSetId) (hdatabases : set'.databases = set.databases)
    (hquery : set'.query = set.query)
    (hbc : bc = (a.backendClass.pushSet i set').record (r.answered i set' a.clock)) :
    TargetSets cfg (a.moved client bc (.serving i set' databases query)) := by
  have hi : (a.views client).held = some i := by rw [hview]; rfl
  have hunt : ∀ j, Untouched cfg a.backendClass bc j := by
    intro j
    rw [hbc]
    exact untouched_quiet rfl quiet_answered
  have hme : ∀ b', bc.find i = some b' →
      SetsOk cfg bc b' ∧ ViewOk cfg bc b' (.serving i set' databases query) := by
    intro b' hb'
    rw [hbc, find_record, find_pushSet, if_pos rfl] at hb'
    obtain ⟨b, hb, rfl⟩ := Option.map_eq_some_iff.mp hb'
    have hknown := h.views client i b hi hb
    rw [hview] at hknown
    obtain ⟨hroom, hlast, rfl, rfl⟩ := hknown
    rw [← hid] at hroom hlast
    rw [← hdatabases, ← hquery] at hlast
    have hpush : SetsOk cfg a.backendClass { b with sets := b.sets ++ [set'] } :=
      (h.sets i b hb).push hroom hlast rfl rfl rfl
    refine ⟨hpush.untouched (hunt _), by simp, ?_, hquery.symm⟩
    rw [hdatabases]
    exact Util.match_refl _
  refine h.touch ⟨ho.others_of_held hi, fun j hj => (Option.some.inj hj).symm, fun j hj => ?_,
    fun j _ => hunt j, fun hn => (hunt i).granted (h.named ?_), fun b hb => (hme b hb).1,
    fun b hb => (hme b hb).2, ?_⟩
  · rw [hbc, find_record, find_pushSet, if_neg hj]
  · rw [hbc] at hn
    exact hn
  · rw [hbc]
    exact h.presents.quiet quiet_answered

/-- A present goes to the set that the client is served from. -/
theorem targetSets_forward (h : TargetSets cfg a) (ho : Owned a) {set : BackendSet}
    {databases : List String} {query : Query}
    (hview : a.views client = .serving i set databases query) :
    TargetSets cfg (a.moved client (a.backendClass.record
      [.served i set.ptr a.clock, .presentSent i set.resultSetId databases query])
      (.serving i set databases query)) := by
  have hi : (a.views client).held = some i := by rw [hview]; rfl
  have hknown : ∀ b, a.backendClass.find i = some b →
      ViewOk cfg a.backendClass b (.serving i set databases query) := by
    intro b hb
    rw [← hview]
    exact h.views client i b hi hb
  obtain ⟨b, hb, -⟩ := ho.find_of_held hi
  obtain ⟨hset, hmatch, hquery⟩ := hknown b hb
  have hunt : ∀ j, Untouched cfg a.backendClass (a.backendClass.record
      [.served i set.ptr a.clock, .presentSent i set.resultSetId databases query]) j := by
    refine fun j => ⟨fun name => rfl, fun hg => ?_⟩
    exact List.mem_append_right _ hg
  have haddressed : Addressed a.backendClass.log
      (.presentSent i set.resultSetId databases query) := by
    have hlast := (h.sets i b hb).searched set hset
    rw [(mem_of_find hb).2, ← hquery] at hlast
    exact ⟨set.databases, hlast, hmatch⟩
  exact h.touch ⟨ho.others_of_held hi, fun j hj => (Option.some.inj hj).symm, fun j _ => rfl,
    fun j _ => hunt j, fun hn => (hunt i).granted (h.named hn),
    fun b' hb' => (h.sets i b' hb').untouched (hunt _),
    fun b' hb' => (hknown b' hb').untouched (hunt _), trivial, haddressed, h.presents⟩

theorem targetSets_remove (h : TargetSets cfg a)
    (hothers : ∀ client', client' ≠ client → (a.views client').held ≠ some i) :
    TargetSets cfg (a.moved client (a.backendClass.removeBackend client i) .away) := by
  have hquiet : ∀ e ∈ [Event.removed client i], e.Quiet := by simp [Event.Quiet]
  have hlog : (a.backendClass.removeBackend client i).log =
      [Event.removed client i] ++ a.backendClass.log := rfl
  have hgone : (a.backendClass.removeBackend client i).find i = none := by
    rw [find_removeBackend, if_pos rfl]
  refine h.touch ⟨hothers, fun j hj => (by cases hj), fun j hj => ?_,
    fun j _ => untouched_quiet hlog hquiet, fun hn => List.mem_cons_of_mem _ (h.named hn),
    fun b hb => ?_, fun b hb => trivial, h.presents.quiet hquiet⟩
  · rw [find_removeBackend, if_neg hj]
  · rw [hgone] at hb
    cases hb

theorem targetSets_move (h : TargetSets cfg a) (ho : Owned a)
    (hm : Moves cfg a.clock a.fresh client a.backendClass (a.views client) bc v) :
    TargetSets cfg (a.moved client bc v) := by
  generalize hview : a.views client = u at hm
  generalize hclass : a.backendClass = bc0 at hm
  have mine {j : InstanceId} (hj : u.held = some j) :
      ∀ client', client' ≠ client → (a.views client').held ≠ some j :=
    ho.others_of_held (hview ▸ hj)
  have heldOnly {j : InstanceId} (hj : u.held = some j) : ∀ j', u.held = some j' → j' = j := by
    intro j' hj'
    rw [hj] at hj'
    exact (Option.some.inj hj').symm
  have known {j : InstanceId} (hj : u.held = some j) :
      ∀ b, a.backendClass.find j = some b → ViewOk cfg a.backendClass b u := by
    intro b hb
    rw [← hview]
    exact h.views client j b (hview ▸ hj) hb
  cases hm with
  | quiet hs =>
    subst hclass
    cases hheld : v.held with
    | none =>
      -- no instance is concerned: take a number that none has
      have hnot := ho.fresh_notMem
      refine h.same hs (fun client' _ => ho.others_of_new hnot client') (fun j hj => ?_)
        fun b _ => .of_held_none hheld
      rw [hheld] at hj
      cases hj
    | some j => exact h.same hs (mine hheld) (heldOnly hheld) (known hheld)
  | giveUp hs hi =>
    subst hclass
    exact h.same hs (mine hi) (fun j hj => (Option.some.inj hj).symm) fun b _ => trivial
  | crash hi hcrash =>
    subst hclass
    obtain ⟨b, hb, huse⟩ := ho.find_of_held (hview ▸ hi)
    simp [hcrash b hb] at huse
  | beginCreate =>
    subst hclass
    have hnot := ho.fresh_notMem
    refine h.quietMove (i := a.fresh) (fun b => b) [] (fun client' _ => ho.others_of_new hnot client')
      (fun j hj => by cases hj) (fun _ => SameSets.rfl) (fun j => ?_) rfl (by simp) rfl
      fun b _ => trivial
    unfold BackendClass.find BackendClass.modify beginCreate
    simp
  | created granted hv hkey hlist hnamed hlog hcreating =>
    subst hclass
    exact targetSets_created h ho hv hlist hnamed hlog
  | notCreated granted hkey hlist hnamed hlog hcreating =>
    subst hclass
    exact targetSets_notCreated h ho hlist hnamed hlog
  | @take b hb hidle =>
    subst hclass
    exact h.quietMove (fun b => { b with inUse := true, sequenceThis := a.backendClass.sequenceTop })
      [.acquired client b.id] (fun client' _ => ho.others_of_idle hb hidle client')
      (fun j hj => (Option.some.inj hj).symm) (fun _ => ⟨rfl, rfl, rfl⟩) (fun j => rfl) rfl
      (by simp [Event.Quiet]) rfl fun b _ => trivial
  | @found b set databases query r hb hidle hset hmatch hquery =>
    subst hclass
    refine h.quietMove
      (fun b => { b with inUse := true, sequenceThis := a.backendClass.sequenceTop })
      (r.answered b.id set a.clock ++ [.acquired client b.id])
      (fun client' _ => ho.others_of_idle hb hidle client')
      (fun j hj => (Option.some.inj hj).symm) (fun _ => ⟨rfl, rfl, rfl⟩) (fun j => rfl) ?_ ?_ rfl
      fun b' hb' => ?_
    · simp [record, BackendClass.useBackend]
    · intro e he
      rcases List.mem_append.mp he with hans | hacq
      · exact quiet_answered e hans
      · rw [List.mem_singleton.mp hacq]
        trivial
    · rw [find_of_mem ho.nodup hb] at hb'
      cases hb'
      exact ⟨hset, hmatch, hquery⟩
  | replace outOfSessions hb hidle hset hrep =>
    subst hclass
    exact targetSets_replace h ho hb hidle hset outOfSessions
  | @add b hb hidle hlen =>
    subst hclass
    refine targetSets_nextId (fun b' => { b' with
        inUse := true
        sequenceThis := (a.backendClass.countId b.id).sequenceTop })
      [.acquired client b.id] h ho hb
      (fun client' _ => ho.others_of_idle hb hidle client') (.inl hlen) (fun _ => ⟨rfl, rfl, rfl⟩)
      (fun j => rfl) ?_ (by simp [Event.Quiet]) countId_named
    simp [BackendClass.useBackend, countId_log]
  | @choose b hb =>
    subst hclass
    have hnil : b.sets = [] := known rfl b (find_of_mem ho.nodup hb)
    refine targetSets_nextId (fun b => b) [] h ho hb (mine rfl) (.inr hnil)
      (fun _ => SameSets.rfl) (fun j => ?_) countId_log (by simp) countId_named
    unfold BackendClass.find BackendClass.modify
    simp
  | timestamp hi =>
    subst hclass
    exact h.quietMove (fun b => { b with timeLastUse := a.clock }) [] (mine hi) (heldOnly hi)
      (fun _ => ⟨rfl, rfl, rfl⟩) (fun j => rfl) rfl (by simp) rfl (known hi)
  | @send i set hptr hlast =>
    subst hclass
    exact targetSets_send h ho hview
  | @push i set databases query r resultSetSize info =>
    subst hclass
    exact targetSets_push h ho hview r rfl rfl rfl rfl
  | @cached i set databases query =>
    subst hclass
    refine h.quietMove (fun b => b) [.served i set.ptr a.clock] (mine rfl)
      (fun j hj => (Option.some.inj hj).symm) (fun _ => SameSets.rfl) (fun j => ?_) rfl
      (by simp [Event.Quiet]) rfl fun b _ => trivial
    unfold BackendClass.find BackendClass.modify record
    simp
  | @forward i set databases query =>
    subst hclass
    exact targetSets_forward h ho hview
  | @release _ i hi =>
    subst hclass
    exact h.quietMove (fun b => { b with inUse := false }) [.released client i] (mine hi)
      (fun j hj => by cases hj) (fun _ => ⟨rfl, rfl, rfl⟩) (fun j => rfl) rfl
      (by simp [Event.Quiet]) rfl fun b _ => trivial
  | @remove _ i hi =>
    subst hclass
    exact targetSets_remove h (mine hi)

theorem targetSets_expire (h : TargetSets cfg a) (ho : Owned a) (now : Time) :
    TargetSets cfg { a with backendClass := a.backendClass.expireInstances cfg now a.clock } := by
  have hquiet : ∀ e ∈ (a.backendClass.backendList.filter (expires cfg now)).map
      (fun b => Event.dropped b.id a.clock), e.Quiet := by
    intro e he
    obtain ⟨i, rfl⟩ := dropped_only he
    trivial
  have hunt : ∀ j, Untouched cfg a.backendClass
      (a.backendClass.expireInstances cfg now a.clock) j := fun j => untouched_quiet rfl hquiet
  refine ⟨fun hn => (hunt 0).granted (h.named hn), fun i b hb => ?_, fun client i b hv hb => ?_,
    h.presents.quiet hquiet⟩
  · have hold := ((find_expireInstances ho.nodup now a.clock).mp hb).1
    exact (h.sets i b hold).untouched (hunt _)
  · have hold := ((find_expireInstances ho.nodup now a.clock).mp hb).1
    exact (h.views client i b hv hold).untouched (hunt _)

theorem targetSets_rest (h : TargetSets cfg a) (hs : Same a.backendClass a'.backendClass)
    (hviews : a'.views = a.views) : TargetSets cfg a' := by
  have hfind : ∀ i, a'.backendClass.find i = a.backendClass.find i := fun i => by
    rw [find, find, hs.backendList]
  have hunt : ∀ j, Untouched cfg a.backendClass a'.backendClass j := fun j =>
    ⟨fun name => by rw [hs.log], fun hg => by unfold Granted; rw [hs.log]; exact hg⟩
  refine ⟨fun hn => (hunt 0).granted (h.named (hs.namedResultSets ▸ hn)), fun i b hb => ?_,
    fun client i b hv hb => ?_, hs.log ▸ h.presents⟩
  · exact (h.sets i b (hfind i ▸ hb)).untouched (hunt _)
  · rw [hviews] at hv ⊢
    exact (h.views client i b hv (hfind i ▸ hb)).untouched (hunt _)

/-- In every run the result sets at the targets are what the instances take them for. -/
theorem targetSets_of_reach {ok : St → Label → Prop} {s : St} (h : Reach (step cfg) init ok s) :
    ∀ c < s.made, Owned (s.classAt c) ∧ TargetSets cfg (s.classAt c) := by
  refine classInvariant (I := fun a => Owned a ∧ TargetSets cfg a)
    (fun _ hnew => ⟨owned_new hnew, targetSets_new hnew⟩)
    (fun a a' ⟨ho, ht⟩ hs => ⟨owned_step ho hs, ?_⟩) h
  cases hs with
  | rest hsame hviews hfresh => exact targetSets_rest ht hsame hviews
  | move client hm => exact targetSets_move ht ho hm
  | expire now => exact targetSets_expire ht ho now

/-- In every run: the result sets of an instance have different names, each was made by the last
search sent under its name, there are at most `resultsetMax` of them (one if that is 0), and at most
one if no init response has granted named result sets. So every present was addressed to a result
set of its query. -/
theorem result_sets_apart {s : St} (h : Reach (step cfg) init Any s) {c : Nat} (hc : c < s.made) :
    (∀ b ∈ (s.classes c).backendList,
      b.names.Nodup ∧
      (∀ set ∈ b.sets, lastSearch b.id set.resultSetId.name (s.classes c).log =
        some (set.databases, set.query)) ∧
      b.sets.length ≤ max 1 cfg.resultsetMax ∧
      (¬ Granted (s.classes c) → b.sets.length ≤ 1)) ∧
    PresentsMatch (s.classes c).log := by
  obtain ⟨ho, ht⟩ := targetSets_of_reach h c hc
  refine ⟨fun b hb => ?_, ht.presents⟩
  have hs : SetsOk cfg (s.classes c) b := ht.sets b.id b (find_of_mem ho.nodup hb)
  have hbound := hs.bounded
  refine ⟨hs.distinct, hs.searched, ?_, fun hnot => ?_⟩
  · unfold setBound at hbound
    split at hbound <;> omega
  · unfold setBound at hbound
    rwa [if_neg hnot] at hbound

/-- Two searches of one client, and a present for the first of them. -/
def twoSearches : List Label :=
  inits 0 true ++ searches 0 (searchTitle "1" 120) (hits 3) ++
    searches 0 (searchTitle "2" 121) (hits 4) ++
    .request 0 (.present ⟨"1", 1, 1⟩) :: goes 0 1 ++ [.thread 0 (.cached false)] ++ goes 0 2

theorem result_sets_apart_two : ∃ s, Reach (step .default) init Any s ∧
    (s.classes 0).backendList.map BackendInstance.names = [["0", "1"]] ∧
    PresentsMatch (s.classes 0).log := by
  have hrun : (run (step .default) St.start twoSearches).any (fun s => s.made = 1 ∧
      (s.classes 0).backendList.map BackendInstance.names = [["0", "1"]]) = true := by decide
  obtain ⟨s, hr, hp⟩ := Reach.exists_of_run init_start (runOk_any _ _) hrun
  simp only [decide_eq_true_eq] at hp
  exact ⟨s, hr, hp.2, (result_sets_apart hr (by omega)).2⟩

end SessionShared
end Metaproxy
