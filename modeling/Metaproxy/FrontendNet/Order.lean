import Metaproxy.FrontendNet.Child

/-!
# FrontendNet.Order

In which order the responses of a connection are sent. Nothing in the pool keeps the packages of a
connection in order: whichever worker finishes first is first in the output queue
(`second_first`). The event loop takes the packages from there in turn, so responses are sent in the
order in which the workers finish, and in the order of the requests in runs where the workers finish
them in that order (`responses_ordered`).

`Traced` holds in every run and `Sorted` in the runs of the second kind. Only two steps matter to
them, the one that puts a package in the output queue and the one that takes it from there; what all
the others leave alone is `Quiet`.
-/

namespace Metaproxy
namespace FrontendNet

open Lib
open Clients (Session SessionId)
open ThreadPool

variable {ζ : Type*} {matchGlob : List Char → List Char → Bool} {cfg : Config} {rep : Rep}
  {s s' : St ζ} {c : SessionId} {child : ZAssocChild}

/-! ## What is recorded -/

def Event.receivedOf (c : SessionId) : Event ζ → Option PackageId
  | .received c' p => if c' = c then some p else none
  | _ => none

def Event.finishedOf (c : SessionId) : Event ζ → Option PackageId
  | .finished c' p => if c' = c then some p else none
  | _ => none

def Event.responseOf (c : SessionId) : Event ζ → Option PackageId
  | .sent c' p _ => if c' = c then some p else none
  | _ => none

namespace St

/-- Oldest first, as the other two. -/
def received (s : St ζ) (c : SessionId) : List PackageId :=
  (s.log.filterMap (Event.receivedOf c)).reverse

def finished (s : St ζ) (c : SessionId) : List PackageId :=
  (s.log.filterMap (Event.finishedOf c)).reverse

/-- The packages whose responses have been sent by `result`. -/
def responses (s : St ζ) (c : SessionId) : List PackageId :=
  (s.log.filterMap (Event.responseOf c)).reverse

/-- How many packages of a kind are still to be finished. -/
def unfinished (s : St ζ) (q : PackageId → Bool) : Nat :=
  s.pool.input.countP q + s.pool.held.countP q + s.pool.blocked.countP q

end St

theorem pending_unfinished (q : PackageId → Bool) :
    s.pool.pending q = s.unfinished q + s.pool.output.countP q := by
  simp only [Observer.pending, Observer.inside, St.unfinished]
  omega

/-! ## Steps that leave the output queue alone -/

/-- At most one package is put, and it is new. -/
structure Quiet (s s' : St ζ) : Prop where
  finished : ∀ c, s'.finished c = s.finished c
  responses : ∀ c, s'.responses c = s.responses c
  received : ∀ c, s'.received c = s.received c ∨
    (s'.received c = s.received c ++ [s.made] ∧ s.made < s'.made)
  output : s'.pool.output = s.pool.output
  made : s.made ≤ s'.made
  sessions : ∀ p, p < s.made → (s'.packages p).session.id = (s.packages p).session.id
  pending : ∀ q, s'.pool.pending q ≤
    s.pool.pending q + if q s.made ∧ s.made < s'.made then 1 else 0

theorem Quiet.refl (s : St ζ) : Quiet s s where
  finished _ := rfl
  responses _ := rfl
  received _ := .inl rfl
  output := rfl
  made := Nat.le_refl _
  sessions _ _ := rfl
  pending _ := Nat.le_add_right _ _

/-- What only the event loop and the log see. -/
def Event.isNote : Event ζ → Bool
  | .used _ _ => true
  | .sentAtOnce _ _ _ => true
  | .deleted _ _ => true
  | .closed _ _ => true
  | _ => false

theorem Quiet.notes (h : Quiet s s') (es : List (Event ζ)) (hes : ∀ e ∈ es, e.isNote = true) :
    Quiet s { s' with log := es ++ s'.log } := by
  have hnone : ∀ {f : Event ζ → Option PackageId}, (∀ e, e.isNote = true → f e = none) →
      es.filterMap f = [] := by
    intro f hf
    exact List.filterMap_eq_nil_iff.mpr fun e he => hf e (hes e he)
  have hkeep : ∀ {f : Event ζ → Option PackageId}, (∀ e, e.isNote = true → f e = none) →
      ((es ++ s'.log).filterMap f).reverse = (s'.log.filterMap f).reverse := by
    intro f hf
    rw [List.filterMap_append, hnone hf, List.nil_append]
  refine ⟨fun c => ?_, fun c => ?_, fun c => ?_, h.output, h.made, h.sessions, h.pending⟩
  · exact (hkeep fun e he => by cases e <;> first | rfl | cases he).trans (h.finished c)
  · exact (hkeep fun e he => by cases e <;> first | rfl | cases he).trans (h.responses c)
  · have hsame : ({ s' with log := es ++ s'.log } : St ζ).received c = s'.received c :=
      hkeep fun e he => by cases e <;> first | rfl | cases he
    rw [hsame]
    exact h.received c

theorem Quiet.note (h : Quiet s s') {e : Event ζ} (he : e.isNote = true) : Quiet s (s'.record e) :=
  h.notes [e] (List.forall_mem_singleton.mpr he)

theorem Quiet.setChildren (h : Quiet s s') (children : Table SessionId ZAssocChild) :
    Quiet s { s' with children } :=
  ⟨h.finished, h.responses, h.received, h.output, h.made, h.sessions, h.pending⟩

theorem Quiet.deleteChild (h : Quiet s s') (c : SessionId) : Quiet s (s'.deleteChild c) :=
  (h.setChildren _).note rfl

theorem quiet_pool {pool : Observer PackageId} (hout : pool.output = s.pool.output)
    (hpool : ∀ q, pool.pending q = s.pool.pending q) : Quiet s { s with pool } where
  finished _ := rfl
  responses _ := rfl
  received _ := .inl rfl
  output := hout
  made := Nat.le_refl _
  sessions _ _ := rfl
  pending q := Nat.le_trans (Nat.le_of_eq (hpool q)) (Nat.le_add_right _ _)

theorem quiet_connect (s : St ζ) (address : List Char) : Quiet s (connect s address) :=
  ⟨fun _ => rfl, fun _ => rfl, fun _ => .inl rfl, rfl, Nat.le_refl _, fun _ _ => rfl,
    fun _ => Nat.le_add_right _ _⟩

theorem quiet_newPackage (s : St ζ) (pkg : Package ζ) : Quiet s (s.newPackage pkg) where
  finished _ := rfl
  responses _ := rfl
  received _ := .inl rfl
  output := rfl
  made := Nat.le_succ _
  sessions p hp := by
    simp only [St.newPackage]
    rw [Function.update_of_ne (Nat.ne_of_lt hp)]
  pending _ := Nat.le_add_right _ _

theorem Quiet.receive (h : Quiet s s') (hmade : s.made < s'.made)
    (hno : ∀ c, s'.received c = s.received c) (c : SessionId) :
    Quiet s (s'.record (.received c s.made)) where
  finished := h.finished
  responses := h.responses
  received c' := by
    by_cases hc : c = c'
    · subst hc
      refine .inr ⟨?_, hmade⟩
      have hself : (s'.record (.received c s.made)).received c =
          s'.received c ++ [s.made] := by
        simp [St.received, St.record, Event.receivedOf]
      rw [hself, hno c]
    · refine .inl ?_
      have hself : (s'.record (.received c s.made)).received c' = s'.received c' := by
        simp [St.received, St.record, Event.receivedOf, hc]
      rw [hself, hno c']
  output := h.output
  made := h.made
  sessions := h.sessions
  pending := h.pending

/-- The package made last is put. -/
theorem Quiet.put (h : Quiet s s') (hmade : s.made < s'.made) {pool : Observer PackageId}
    (hout : pool.output = s'.pool.output)
    (hpool : ∀ q, pool.pending q ≤ s.pool.pending q + if q s.made then 1 else 0) :
    Quiet s { s' with pool } where
  finished := h.finished
  responses := h.responses
  received := h.received
  output := hout.trans h.output
  made := h.made
  sessions := h.sessions
  pending q := by
    refine Nat.le_trans (hpool q) (Nat.le_of_eq ?_)
    simp [hmade]

theorem quiet_recvGDU (s : St ζ) (c : SessionId) (child : ZAssocChild) (gdu : Option (Gdu ζ))
    (conSz : Int) : Quiet s (recvGDU matchGlob cfg rep s c child gdu conSz) := by
  have hnew := (quiet_newPackage s ⟨child.session, requestOrigin child gdu, gdu, none⟩).setChildren
    (s.children.insert c { child with noRequests := child.noRequests + 1 })
  have hreceived := hnew.receive (Nat.lt_succ_self _) (fun _ => rfl) c
  unfold recvGDU
  split
  · exact (hreceived.note rfl).deleteChild c
  · exact hreceived.put (Nat.lt_succ_self _) (output_put _) fun q => Nat.le_of_eq (pending_put _)

theorem quiet_failNotify (s : St ζ) (c : SessionId) (child : ZAssocChild) :
    Quiet s (failNotify cfg s c child) := by
  unfold failNotify
  split
  · split
    · exact (Quiet.refl s).deleteChild c
    · exact Quiet.refl s
  · let session : Session := { child.session with isClosed := true }
    let pkg : Package ζ := ⟨session, child.origin, none, none⟩
    let mine := (s.newPackage pkg).isOf c
    have hnew := (quiet_newPackage s pkg).setChildren
      ((s.children.insert c { child with
        noRequests := child.noRequests + 1 - (s.pool.input.filter mine).length, session }))
    have hnotes := hnew.notes ((s.pool.input.filter mine).map fun p => .used p true).reverse
      (fun e he => by
        obtain ⟨p, -, rfl⟩ := List.mem_map.mp (List.mem_reverse.mp he)
        rfl)
    have hpool : ∀ q, ((s.pool.cleanup mine).put cfg s.made).pending q ≤
        s.pool.pending q + if q s.made then 1 else 0 := by
      intro q
      have hclean := pending_cleanup (o := s.pool) (q := q) mine
      rw [pending_put]
      omega
    exact hnotes.put (Nat.lt_succ_self _) (output_put (o := s.pool.cleanup mine) _) hpool

theorem quiet_handle (s : St ζ) (p : PackageId) (response : Option (Gdu ζ)) (closed : Bool) :
    Quiet s (handle s p response closed) := by
  have hsessions : Quiet s { s with packages := (handle s p response closed).packages } := by
    refine ⟨fun _ => rfl, fun _ => rfl, fun _ => .inl rfl, rfl, Nat.le_refl _, fun p' _ => ?_,
      fun _ => Nat.le_add_right _ _⟩
    by_cases hp : p' = p
    · subst hp
      simp [handle]
    · simp [handle, Function.update_of_ne hp]
  exact hsessions.note (e := .used p (s.alive (s.packages p).session.id)) rfl

/-! ## The steps of a run -/

/-- After a worker has put `p` in the output queue. -/
def St.push (s : St ζ) (p : PackageId) (pool : Observer PackageId) : St ζ :=
  { s.record (.finished (s.packages p).session.id p) with pool }

/-- A step is quiet, or it moves a package into or out of the output queue. -/
inductive Moves (s : St ζ) (a : Label ζ) (s' : St ζ) : Prop where
  | quiet : Quiet s s' → Moves s a s'
  | finish (w : Nat) (response : Option (Gdu ζ)) (closed : Bool) (p : PackageId)
      (pool : Observer PackageId) :
      a = .worker w response closed → s.pool.workers[w]? = some (.handled p) →
      s.pool.work w = some pool →
      s' = s.push p pool → Moves s a s'
  | deliver (p : PackageId) (rest : List PackageId) (pool : Observer PackageId) :
      s.pool.output = p :: rest → s.pool.drain = some pool → s' = result { s with pool } p →
      Moves s a s'

theorem work_moves {w : Nat} {response : Option (Gdu ζ)} {closed : Bool}
    (hs : work s w response closed = some s') : Moves s (.worker w response closed) s' := by
  obtain ⟨pool, hpool, heq⟩ := Option.map_eq_some_iff.mp hs
  have hout := output_work hpool
  have hpending : ∀ q, pool.pending q = s.pool.pending q := fun q => pending_work hpool
  split at heq
  · rename_i p hw
    cases heq
    rw [hw] at hout
    have h := quiet_handle s p response closed
    exact .quiet ⟨h.finished, h.responses, h.received, hout.trans (List.append_nil _), h.made,
      h.sessions, fun q => Nat.le_trans (Nat.le_of_eq (hpending q)) (Nat.le_add_right _ _)⟩
  · rename_i p hw
    exact .finish w response closed p pool rfl hw hpool heq.symm
  · rename_i hno hno'
    cases heq
    refine .quiet (quiet_pool ?_ hpending)
    rw [hout]
    split
    · rename_i p hw
      exact absurd hw (hno' p)
    · exact List.append_nil _

theorem step_moves {a : Label ζ} (hs : step matchGlob cfg rep s a = some s') :
    Moves s a s' := by
  cases step_happens hs with
  | connect address => exact .quiet (quiet_connect s address)
  | recvGDU c child gdu conSz _ => exact .quiet (quiet_recvGDU s c child gdu conSz)
  | failNotify c child _ _ => exact .quiet (quiet_failNotify s c child)
  | pool _ pool hout hpending => exact .quiet (quiet_pool hout hpending)
  | deliver _ p rest pool hout hpool => exact .deliver p rest pool hout hpool rfl
  | work w response closed _ hwork => exact work_moves hwork

/-! ## Every run -/

structure Traced (s : St ζ) : Prop where
  /-- Numbers of packages still to be made. -/
  fresh : s.pool.pending (fun p => s.made ≤ p) = 0
  single : ∀ p, s.pool.pending (fun p' => p' = p) ≤ 1
  received : ∀ c, (s.received c).Pairwise (· < ·)
  receivedMade : ∀ c, ∀ p ∈ s.received c, p < s.made
  finishedMade : ∀ c, ∀ p ∈ s.finished c, p < s.made
  done : ∀ c, ∀ p ∈ s.finished c, s.unfinished (fun p' => p' = p) = 0
  nodup : ∀ c, (s.finished c).Nodup
  /-- Those in the output queue will be sent after those sent. -/
  order : ∀ c, (s.responses c ++ s.pool.output.filter (s.isOf c)).Sublist (s.finished c)

theorem traced_of_init (h : init cfg s) : Traced s := by
  obtain ⟨hpool, -, hlog⟩ := h
  have hzero : ∀ q, s.pool.pending q = 0 := fun q => hpool ▸ pending_new
  have hfinished : ∀ c, s.finished c = [] := fun c => by rw [St.finished, hlog]; rfl
  have hreceived : ∀ c, s.received c = [] := fun c => by rw [St.received, hlog]; rfl
  have hresponses : ∀ c, s.responses c = [] := fun c => by rw [St.responses, hlog]; rfl
  have hout : s.pool.output = [] := by rw [hpool]; rfl
  refine ⟨hzero _, fun p => ?_, fun c => ?_, fun c p hp => ?_, fun c p hp => ?_, fun c p hp => ?_,
    fun c => ?_, fun c => ?_⟩
  · rw [hzero]
    exact Nat.zero_le _
  · rw [hreceived]
    exact .nil
  · rw [hreceived] at hp
    cases hp
  · rw [hfinished] at hp
    cases hp
  · rw [hfinished] at hp
    cases hp
  · rw [hfinished]
    exact .nil
  · rw [hresponses, hout]
    exact List.nil_sublist _

theorem Traced.output_made (h : Traced s) {p : PackageId} (hp : p ∈ s.pool.output) :
    p < s.made := by
  by_contra hle
  have hpos : 0 < s.pool.pending (fun p => s.made ≤ p) :=
    pending_pos_of_output hp (decide_eq_true (Nat.le_of_not_lt hle))
  rw [h.fresh] at hpos
  exact Nat.lt_irrefl 0 hpos

/-- A quiet step finishes nothing, and what it puts is new. -/
theorem Quiet.unfinished_le (h : Quiet s s') {q : PackageId → Bool}
    (hq : s.made < s'.made → q s.made = false) : s'.unfinished q ≤ s.unfinished q := by
  have hle := h.pending q
  have hif : ¬ (q s.made = true ∧ s.made < s'.made) := by
    rintro ⟨hself, hlt⟩
    rw [hq hlt] at hself
    cases hself
  rw [if_neg hif, pending_unfinished, pending_unfinished, h.output] at hle
  omega

theorem Traced.quiet (h : Traced s) (hq : Quiet s s') : Traced s' := by
  refine ⟨?_, fun p => ?_, fun c => ?_, fun c p hp => ?_, fun c p hp => ?_, fun c p hp => ?_,
    fun c => ?_, fun c => ?_⟩
  · have hle := hq.pending fun p => s'.made ≤ p
    have hmono : s.pool.pending (fun p => s'.made ≤ p) ≤ s.pool.pending (fun p => s.made ≤ p) :=
      pending_mono fun p hp => decide_eq_true (Nat.le_trans hq.made (of_decide_eq_true hp))
    rw [h.fresh] at hmono
    rw [if_neg (by simp)] at hle
    omega
  · have hle := hq.pending fun p' => p' = p
    have hone := h.single p
    split at hle
    · rename_i hp
      obtain ⟨hp, -⟩ := hp
      have hmono : s.pool.pending (fun p' => p' = p) ≤ s.pool.pending (fun p => s.made ≤ p) := by
        refine pending_mono fun p' hp' => decide_eq_true ?_
        rw [of_decide_eq_true hp', ← of_decide_eq_true hp]
      rw [h.fresh] at hmono
      omega
    · omega
  · rcases hq.received c with heq | ⟨heq, -⟩
    · rw [heq]
      exact h.received c
    · rw [heq, List.pairwise_append]
      refine ⟨h.received c, List.pairwise_singleton _ _, fun p hp p' hp' => ?_⟩
      rw [List.mem_singleton.mp hp']
      exact h.receivedMade c p hp
  · rcases hq.received c with heq | ⟨heq, hlt⟩
    · rw [heq] at hp
      exact Nat.lt_of_lt_of_le (h.receivedMade c p hp) hq.made
    · rw [heq] at hp
      rcases List.mem_append.mp hp with hp | hp
      · exact Nat.lt_trans (h.receivedMade c p hp) hlt
      · rw [List.mem_singleton.mp hp]
        exact hlt
  · rw [hq.finished] at hp
    exact Nat.lt_of_lt_of_le (h.finishedMade c p hp) hq.made
  · rw [hq.finished] at hp
    have hzero := h.done c p hp
    have hlt := h.finishedMade c p hp
    have hle := hq.unfinished_le (q := fun p' => p' = p)
      fun _ => decide_eq_false (Nat.ne_of_gt hlt)
    omega
  · rw [hq.finished]
    exact h.nodup c
  · rw [hq.finished, hq.responses, hq.output]
    have hsame : s.pool.output.filter (s'.isOf c) = s.pool.output.filter (s.isOf c) := by
      refine List.filter_congr fun p hp => ?_
      rw [St.isOf, St.isOf, hq.sessions p (h.output_made hp)]
    rw [hsame]
    exact h.order c

/-- The worker's package moves to the output queue. -/
theorem unfinished_finish {w : Nat} {p : PackageId} {pool : Observer PackageId}
    (hw : s.pool.workers[w]? = some (.handled p)) (hpool : s.pool.work w = some pool)
    (hs' : s'.pool = pool) (q : PackageId → Bool) :
    s'.unfinished q + (if q p then 1 else 0) = s.unfinished q := by
  have hout := output_work hpool
  have hpending : pool.pending q = s.pool.pending q := pending_work hpool
  have hold := pending_unfinished (s := s) q
  have hnew := pending_unfinished (s := s') q
  rw [hw] at hout
  rw [hs'] at hnew
  simp only [hout, List.countP_append, List.countP_singleton] at hnew
  omega

theorem finished_push (p : PackageId) (pool : Observer PackageId) (c : SessionId) :
    (s.push p pool).finished c =
      if (s.packages p).session.id = c then s.finished c ++ [p] else s.finished c := by
  by_cases hc : (s.packages p).session.id = c
  · simp [St.finished, St.push, St.record, Event.finishedOf, hc]
  · simp [St.finished, St.push, St.record, Event.finishedOf, hc]

theorem Traced.finish (h : Traced s) {w : Nat} {p : PackageId} {pool : Observer PackageId}
    (hw : s.pool.workers[w]? = some (.handled p)) (hpool : s.pool.work w = some pool) :
    Traced (s.push p pool) := by
  have hunfinished : ∀ q, (s.push p pool).unfinished q + (if q p then 1 else 0) =
      s.unfinished q := unfinished_finish hw hpool rfl
  have hpending : ∀ q, pool.pending q = s.pool.pending q := fun q => pending_work hpool
  have hout : pool.output = s.pool.output ++ [p] := by
    have := output_work hpool
    rwa [hw] at this
  have hmade : p < s.made := by
    by_contra hle
    have hpos : 0 < s.pool.pending (fun p => s.made ≤ p) :=
      pending_pos_of_worker hw rfl (decide_eq_true (Nat.le_of_not_lt hle))
    rw [h.fresh] at hpos
    exact Nat.lt_irrefl 0 hpos
  have hfresh : ∀ c, p ∉ s.finished c := by
    intro c hp
    have hzero := h.done c p hp
    have := hunfinished fun p' => p' = p
    rw [if_pos (decide_eq_true rfl)] at this
    omega
  have hmem : ∀ c, ∀ p' ∈ (s.push p pool).finished c, p' ∈ s.finished c ∨ p' = p := by
    intro c p' hp'
    rw [finished_push] at hp'
    split at hp'
    · rcases List.mem_append.mp hp' with hp' | hp'
      · exact .inl hp'
      · exact .inr (List.mem_singleton.mp hp')
    · exact .inl hp'
  refine ⟨(hpending _).trans h.fresh, fun p' => Nat.le_trans (Nat.le_of_eq (hpending _)) (h.single p'),
    h.received, h.receivedMade, fun c p' hp' => ?_, fun c p' hp' => ?_, fun c => ?_, fun c => ?_⟩
  · rcases hmem c p' hp' with hp' | rfl
    · exact h.finishedMade c p' hp'
    · exact hmade
  · rcases hmem c p' hp' with hp' | rfl
    · have hzero := h.done c p' hp'
      have := hunfinished fun p'' => p'' = p'
      omega
    · have hone := h.single p'
      have := hunfinished fun p'' => p'' = p'
      rw [if_pos (decide_eq_true rfl)] at this
      rw [pending_unfinished] at hone
      omega
  · rw [finished_push]
    split
    · exact (h.nodup c).append (List.nodup_singleton p) (by simpa using hfresh c)
    · exact h.nodup c
  · rw [finished_push]
    change (s.responses c ++ pool.output.filter (s.isOf c)).Sublist _
    rw [hout, List.filter_append, ← List.append_assoc]
    split
    · rename_i hc
      have hself : [p].filter (s.isOf c) = [p] := by simp [St.isOf, hc]
      rw [hself]
      exact (h.order c).append (.refl _)
    · rename_i hc
      have hself : [p].filter (s.isOf c) = [] := by simp [St.isOf, hc]
      rw [hself, List.append_nil]
      exact h.order c

theorem responses_record (c c' : SessionId) (p : PackageId) (gdu : Gdu ζ) :
    (s.record (.sent c p gdu)).responses c' = s.responses c' ∨
    ((s.record (.sent c p gdu)).responses c' = s.responses c' ++ [p] ∧ c = c') := by
  by_cases hc : c = c'
  · exact .inr ⟨by simp [St.responses, St.record, Event.responseOf, hc], hc⟩
  · exact .inl (by simp [St.responses, St.record, Event.responseOf, hc])

/-- Nothing is finished or received, and at most the response to the package is sent. -/
structure Delivers (s : St ζ) (p : PackageId) (s' : St ζ) : Prop where
  packages : s'.packages = s.packages
  made : s'.made = s.made
  finished : ∀ c, s'.finished c = s.finished c
  received : ∀ c, s'.received c = s.received c
  responses : ∀ c, s'.responses c = s.responses c ∨
    (s'.responses c = s.responses c ++ [p] ∧ s.isOf c p = true)

theorem result_delivers (s : St ζ) (p : PackageId) :
    Delivers s p (result s p) ∧ (result s p).pool = s.pool := by
  have hsame : Delivers s p s := ⟨rfl, rfl, fun _ => rfl, fun _ => rfl, fun _ => .inl rfl⟩
  rcases ha : (s.packages p).answer with ⟨gdu, session⟩
  unfold result
  simp only [ha]
  split
  · exact ⟨⟨rfl, rfl, fun _ => rfl, fun _ => rfl, fun _ => .inl rfl⟩, rfl⟩
  · cases gdu with
    | none =>
      simp only [Option.elim_none]
      split <;> exact ⟨⟨rfl, rfl, fun _ => rfl, fun _ => rfl, fun _ => .inl rfl⟩, rfl⟩
    | some gdu =>
      have hsent := fun c' => responses_record (s := s) (s.packages p).session.id c' p gdu
      simp only [Option.elim_some]
      split <;> exact ⟨⟨rfl, rfl, fun _ => rfl, fun _ => rfl, fun c' =>
        (hsent c').imp_right fun h => ⟨h.1, decide_eq_true h.2⟩⟩, rfl⟩

theorem unfinished_deliver {p : PackageId} {rest : List PackageId} {pool : Observer PackageId}
    (hout : s.pool.output = p :: rest) (hpool : s.pool.drain = some pool)
    (hs' : s'.pool = pool) (q : PackageId → Bool) : s'.unfinished q = s.unfinished q := by
  have hdrop := output_drain hpool
  have hpending := pending_drain (q := q) hpool
  have hold := pending_unfinished (s := s) q
  have hnew := pending_unfinished (s := s') q
  rw [hout] at hdrop hpending hold
  rw [hs', hdrop] at hnew
  simp only [List.take_succ_cons, List.take_zero, List.drop_succ_cons, List.drop_zero,
    List.countP_cons, List.countP_nil] at hpending hold hnew
  omega

theorem Traced.deliver (h : Traced s) {p : PackageId} {rest : List PackageId}
    {pool : Observer PackageId} (hout : s.pool.output = p :: rest)
    (hpool : s.pool.drain = some pool) : Traced (result { s with pool } p) := by
  obtain ⟨hd, hsame⟩ := result_delivers { s with pool } p
  have hunfinished := unfinished_deliver hout hpool hsame
  have hpending : ∀ q, pool.pending q ≤ s.pool.pending q := by
    intro q
    have := pending_drain (q := q) hpool
    omega
  have hrest : pool.output = rest := by
    rw [output_drain hpool, hout]
    rfl
  have hisOf : ∀ c, (result { s with pool } p).isOf c = s.isOf c := by
    intro c
    funext p'
    rw [St.isOf, hd.packages]
    rfl
  refine ⟨?_, fun p' => ?_, fun c => ?_, fun c p' hp' => ?_, fun c p' hp' => ?_, fun c p' hp' => ?_,
    fun c => ?_, fun c => ?_⟩
  · rw [hsame, hd.made]
    exact Nat.le_zero.mp (h.fresh ▸ hpending _)
  · rw [hsame]
    exact Nat.le_trans (hpending _) (h.single p')
  · rw [hd.received]
    exact h.received c
  · rw [hd.received] at hp'
    rw [hd.made]
    exact h.receivedMade c p' hp'
  · rw [hd.finished] at hp'
    rw [hd.made]
    exact h.finishedMade c p' hp'
  · rw [hd.finished] at hp'
    rw [hunfinished]
    exact h.done c p' hp'
  · rw [hd.finished]
    exact h.nodup c
  · rw [hd.finished, hsame, hrest, hisOf c]
    have horder := h.order c
    rw [hout] at horder
    rcases hd.responses c with heq | ⟨heq, hp⟩
    · rw [heq]
      exact ((List.Sublist.refl _).append ((List.sublist_cons_self p rest).filter _)).trans horder
    · have hself : s.isOf c p = true := hp
      rw [List.filter_cons_of_pos hself] at horder
      rw [heq, List.append_assoc]
      exact horder

theorem traced_of_reach
    {ok : St ζ → Label ζ → Prop} (h : Reach (step matchGlob cfg rep) (init cfg) ok s) :
    Traced s := by
  refine h.invariant (fun _ => traced_of_init) fun s a s' hi _ hs => ?_
  cases step_moves hs with
  | quiet hq => exact hi.quiet hq
  | finish w response closed p pool _ hw hpool heq => exact heq ▸ hi.finish hw hpool
  | deliver p rest pool hout hpool heq => exact heq ▸ hi.deliver hout hpool

/-! ## Runs in which the workers finish in order -/

/-- A worker puts a package in the output queue only when no package of the connection made before
it is still to be finished. -/
def FinishesInOrder (s : St ζ) : Label ζ → Prop
  | .worker w _ _ => ∀ p, s.pool.workers[w]? = some (.handled p) →
    s.unfinished (fun p' => s.isOf (s.packages p).session.id p' && p' < p) = 0
  | _ => True

structure Sorted (s : St ζ) : Prop where
  sorted : ∀ c, (s.finished c).Pairwise (· < ·)
  later : ∀ c, ∀ p ∈ s.finished c, s.unfinished (fun p' => s.isOf c p' && p' < p) = 0

theorem Sorted.quiet (h : Sorted s) (ht : Traced s) (hq : Quiet s s') : Sorted s' := by
  refine ⟨fun c => ?_, fun c p hp => ?_⟩
  · rw [hq.finished]
    exact h.sorted c
  · rw [hq.finished] at hp
    have hmade := ht.finishedMade c p hp
    have hsame : (fun p' => s'.isOf c p' && decide (p' < p)) =
        fun p' => s.isOf c p' && decide (p' < p) := by
      funext p'
      by_cases hlt : p' < p
      · rw [St.isOf, St.isOf, hq.sessions p' (Nat.lt_trans hlt hmade)]
      · simp [hlt]
    have hle := hq.unfinished_le (q := fun p' => s.isOf c p' && decide (p' < p)) fun _ => by
      simp [Nat.le_of_lt hmade]
    rw [hsame]
    exact Nat.le_zero.mp (h.later c p hp ▸ hle)

theorem Sorted.finish (h : Sorted s) (ht : Traced s) {w : Nat} {p : PackageId}
    {pool : Observer PackageId} (hw : s.pool.workers[w]? = some (.handled p))
    (hpool : s.pool.work w = some pool)
    (hok : s.unfinished (fun p' => s.isOf (s.packages p).session.id p' && p' < p) = 0) :
    Sorted (s.push p pool) := by
  have hunfinished : ∀ q, (s.push p pool).unfinished q + (if q p then 1 else 0) =
      s.unfinished q := unfinished_finish hw hpool rfl
  have hle : ∀ q, (s.push p pool).unfinished q ≤ s.unfinished q := fun q =>
    hunfinished q ▸ Nat.le_add_right _ _
  have hpos : ∀ q : PackageId → Bool, q p = true → 0 < s.unfinished q := by
    intro q hq
    have := hunfinished q
    rw [if_pos hq] at this
    omega
  -- what was finished before has a smaller number
  have hbefore : ∀ p' ∈ s.finished (s.packages p).session.id, p' < p := by
    intro p' hp'
    have hne : p ≠ p' := by
      rintro rfl
      have := hpos (fun p' => p' = p) (decide_eq_true rfl)
      rw [ht.done _ p hp'] at this
      exact Nat.lt_irrefl 0 this
    have hnot : ¬ p < p' := by
      intro hlt
      have := hpos (fun p'' => s.isOf (s.packages p).session.id p'' && decide (p'' < p'))
        (by simp [St.isOf, hlt])
      rw [h.later _ p' hp'] at this
      exact Nat.lt_irrefl 0 this
    exact Nat.lt_of_le_of_ne (Nat.le_of_not_lt hnot) hne.symm
  refine ⟨fun c => ?_, fun c p' hp' => ?_⟩
  · rw [finished_push]
    split
    · rename_i hc
      rw [List.pairwise_append]
      refine ⟨h.sorted c, List.pairwise_singleton _ _, fun p' hp' p'' hp'' => ?_⟩
      rw [List.mem_singleton.mp hp'']
      exact hbefore p' (hc ▸ hp')
    · exact h.sorted c
  · rw [finished_push] at hp'
    split at hp'
    · rename_i hc
      rcases List.mem_append.mp hp' with hp' | hp'
      · exact Nat.le_zero.mp (h.later c p' hp' ▸ hle _)
      · rw [List.mem_singleton.mp hp', ← hc]
        exact Nat.le_zero.mp (hok ▸ hle _)
    · exact Nat.le_zero.mp (h.later c p' hp' ▸ hle _)

theorem Sorted.deliver (h : Sorted s) {p : PackageId} {rest : List PackageId}
    {pool : Observer PackageId} (hout : s.pool.output = p :: rest)
    (hpool : s.pool.drain = some pool) : Sorted (result { s with pool } p) := by
  obtain ⟨hd, hsame⟩ := result_delivers { s with pool } p
  have hisOf : ∀ c, (result { s with pool } p).isOf c = s.isOf c := by
    intro c
    funext p'
    rw [St.isOf, hd.packages]
    rfl
  refine ⟨fun c => ?_, fun c p' hp' => ?_⟩
  · rw [hd.finished]
    exact h.sorted c
  · rw [hd.finished] at hp'
    rw [unfinished_deliver hout hpool hsame, hisOf]
    exact h.later c p' hp'

theorem sorted_of_init (h : init cfg s) : Sorted s := by
  obtain ⟨-, -, hlog⟩ := h
  have hfinished : ∀ c, s.finished c = [] := fun c => by rw [St.finished, hlog]; rfl
  refine ⟨fun c => ?_, fun c p hp => ?_⟩
  · rw [hfinished]
    exact .nil
  · rw [hfinished] at hp
    cases hp

theorem sorted_of_reach (h : Reach (step matchGlob cfg rep) (init cfg) FinishesInOrder s) :
    Sorted s := by
  refine h.invariant_with (fun _ => traced_of_reach) (fun _ => sorted_of_init)
    fun s a s' ht hi hok hs => ?_
  cases step_moves hs with
  | quiet hq => exact hi.quiet ht hq
  | finish w response closed p pool ha hw hpool heq =>
    subst ha
    exact heq ▸ hi.finish ht hw hpool (hok p hw)
  | deliver p rest pool hout hpool heq => exact heq ▸ hi.deliver hout hpool

/-- In every run: the requests of a connection are numbered as they are received; no package is
finished twice; and the responses are sent in the order in which the workers finish the packages.
When the workers finish the packages of each connection in the order of their numbers, the responses
are sent in the order of the requests. -/
theorem responses_ordered (matchGlob : List Char → List Char → Bool) (cfg : Config) (rep : Rep)
    {s : St ζ} (h : Reach (step matchGlob cfg rep) (init cfg) Any s) :
    (∀ c, (s.received c).Pairwise (· < ·) ∧ (s.finished c).Nodup ∧
      (s.responses c).Sublist (s.finished c)) ∧
    (Reach (step matchGlob cfg rep) (init cfg) FinishesInOrder s →
      ∀ c, (s.responses c).Pairwise (· < ·)) := by
  have ht := traced_of_reach h
  have hsub : ∀ c, (s.responses c).Sublist (s.finished c) := fun c =>
    (List.sublist_append_left _ _).trans (ht.order c)
  exact ⟨fun c => ⟨ht.received c, ht.nodup c, hsub c⟩, fun hok c =>
    ((sorted_of_reach hok).sorted c).sublist (hsub c)⟩

/-! ### Two workers -/

def oneClient : List (Label Empty) :=
  [.connect ['p', ' ', '@'], .recvGDU 1 (some (.httpRequest ⟨['a'], none⟩)) 0,
    .recvGDU 1 (some (.httpRequest ⟨['b'], none⟩)) 0, .worker 0 none false, .worker 1 none false]

/-- Worker `w` handles and finishes its package. -/
def finish (w : Nat) : List (Label Empty) :=
  [.worker w (some (.httpResponse 200)) false, .worker w none false]

def deliverAll : List (Label Empty) := [.socketNotify, .drain, .drain]

instance (s : St ζ) : ∀ a, Decidable (FinishesInOrder s a)
  | .worker w _ _ =>
    match h : s.pool.workers[w]? with
    | some (.handled p) =>
      decidable_of_iff
        (s.unfinished (fun p' => s.isOf (s.packages p).session.id p' && p' < p) = 0)
        ⟨fun hp p' hp' => by rw [h] at hp'; cases hp'; exact hp, fun hall => hall p h⟩
    | some .running => isTrue fun p hp => by rw [h] at hp; cases hp
    | some .waiting => isTrue fun p hp => by rw [h] at hp; cases hp
    | some (.handling _) => isTrue fun p hp => by rw [h] at hp; cases hp
    | none => isTrue fun p hp => by rw [h] at hp; cases hp
  | .connect _ => isTrue trivial
  | .recvGDU _ _ _ => isTrue trivial
  | .failNotify _ => isTrue trivial
  | .timeoutNotify _ => isTrue trivial
  | .retryPut => isTrue trivial
  | .socketNotify => isTrue trivial
  | .drain => isTrue trivial

theorem responses_ordered_two :
    ∃ s : St Empty, s.responses 1 = [0, 1] ∧ (s.responses 1).Pairwise (· < ·) := by
  have hok : RunOk (step (fun _ _ => false) ⟨2, 2⟩ ⟨[], []⟩) FinishesInOrder (.start ⟨2, 2⟩)
      (oneClient ++ finish 0 ++ finish 1 ++ deliverAll) := by
    decide
  have hrun : (run (step (fun _ _ => false) ⟨2, 2⟩ ⟨[], []⟩) (.start ⟨2, 2⟩)
      (oneClient ++ finish 0 ++ finish 1 ++ deliverAll)).any
      (fun s => s.responses 1 = [0, 1]) := by
    decide
  obtain ⟨s, hr, hs⟩ := Reach.exists_of_run (init_start ⟨2, 2⟩) hok hrun
  exact ⟨s, of_decide_eq_true hs, (responses_ordered _ _ _ hr.any).2 hr 1⟩

/-- The second worker finishes first, and the second request is answered first. -/
theorem second_first :
    ¬ ∀ s : St Empty, Reach (step (fun _ _ => false) ⟨2, 2⟩ ⟨[], []⟩) (init ⟨2, 2⟩) Any s →
      ∀ c, (s.responses c).Pairwise (· < ·) := by
  intro h
  have hrun : (run (step (fun _ _ => false) ⟨2, 2⟩ ⟨[], []⟩) (.start ⟨2, 2⟩)
      (oneClient ++ finish 1 ++ finish 0 ++ deliverAll)).any
      (fun s => s.responses 1 = [1, 0]) := by
    decide
  obtain ⟨s, hr, hs⟩ := Reach.exists_of_run (init_start ⟨2, 2⟩) (runOk_any _ _) hrun
  have hsorted := h s hr 1
  rw [of_decide_eq_true hs] at hsorted
  exact absurd (List.rel_of_pairwise_cons hsorted (List.mem_singleton.mpr rfl)) (by decide)

end FrontendNet
end Metaproxy
