import Mathlib.Algebra.Order.Ring.Nat
import Metaproxy.ThreadPool.Observer

/-!
# ThreadPool.Messages

No message is lost, doubled or left lying (`messages_conserved`). A message is counted where it is:
`Observer.inside q` is how many messages of a kind `q` the pool has, in its queues or with a worker.
What each operation does to this number is one lemma, which the users of the pool have a need for
too. `Sound` has the rest: the order and the bound of the input queue, the counters, and that
whoever puts a message in the output queue leaves a byte in the pipe, so that bytes can only run out
while the queue is being emptied.
-/

namespace Metaproxy
namespace ThreadPool

open Lib

variable {μ : Type*} {cfg : Config} {o o' : Observer μ} {q : μ → Bool}

/-! ## Counting -/

theorem countP_set_of {α : Type*} {l : List α} {i : Nat} {x : α} (h : l[i]? = some x) (y : α)
    (p : α → Bool) :
    (l.set i y).countP p + (if p x then 1 else 0) = l.countP p + if p y then 1 else 0 := by
  obtain ⟨hi, rfl⟩ := List.getElem?_eq_some_iff.mp h
  have hle := List.boole_getElem_le_countP (p := p) hi
  rw [List.countP_set hi]
  omega

theorem countP_eraseIdx_of {α : Type*} {l : List α} {i : Nat} {x : α} (h : l[i]? = some x)
    (p : α → Bool) : (l.eraseIdx i).countP p + (if p x then 1 else 0) = l.countP p := by
  obtain ⟨hi, rfl⟩ := List.getElem?_eq_some_iff.mp h
  have hsplit : l = l.take i ++ l[i] :: l.drop (i + 1) := by
    rw [← List.drop_eq_getElem_cons hi, List.take_append_drop]
  have hcount := congrArg (List.countP p) hsplit
  rw [List.countP_append, List.countP_cons] at hcount
  rw [List.eraseIdx_eq_take_drop_succ, List.countP_append, hcount, Nat.add_assoc]

/-- The message of a worker, if it is of the kind `q`. -/
def Worker.has (q : μ → Bool) (x : Worker μ) : Bool := (x.msg.map q).getD false

theorem countP_held : o.held.countP q = o.workers.countP (Worker.has q) := by
  rw [Observer.held, List.countP_filterMap]
  rfl

/-- How many messages of the kind `q` are in the pool. -/
def Observer.inside (o : Observer μ) (q : μ → Bool) : Nat :=
  o.input.countP q + o.held.countP q + o.output.countP q

theorem inside_addWorker : o.addWorker.inside q = o.inside q := by
  simp [Observer.inside, countP_held, Observer.addWorker, Worker.has, Worker.msg]

theorem inside_push (m : μ) : (o.push m).inside q = o.inside q + if q m then 1 else 0 := by
  simp only [Observer.inside, Observer.push, List.countP_append, List.countP_singleton,
    Observer.held]
  omega

theorem cleanupLoop_eq (p : μ → Bool) (l : List μ) :
    Observer.cleanupLoop p l = (l.filter fun m => !p m, l.filter p) := by
  induction l with
  | nil => rfl
  | cons m l ih =>
    rw [Observer.cleanupLoop, ih]
    cases hm : p m
    · simp [hm]
    · simp [hm]

theorem input_cleanup (p : μ → Bool) : (o.cleanup p).input = o.input.filter fun m => !p m := by
  rw [Observer.cleanup, cleanupLoop_eq]

theorem cleaned_cleanup (p : μ → Bool) :
    (o.cleanup p).cleaned = o.cleaned ++ o.input.filter p := by
  rw [Observer.cleanup, cleanupLoop_eq]

/-- What `cleanup` deletes is no longer in the pool. -/
theorem inside_cleanup (p : μ → Bool) :
    (o.cleanup p).inside q + (o.input.filter p).countP q = o.inside q := by
  have hsplit : ∀ l : List μ,
      (l.filter fun m => !p m).countP q + (l.filter p).countP q = l.countP q := by
    intro l
    induction l with
    | nil => rfl
    | cons m l ih =>
      cases hm : p m
      · simp only [hm, List.filter_cons, List.countP_cons] at ih ⊢
        simp only [Bool.not_false, if_true, Bool.false_eq_true, if_false, List.countP_cons]
        omega
      · simp only [hm, List.filter_cons, List.countP_cons] at ih ⊢
        simp only [Bool.not_true, if_true, Bool.false_eq_true, if_false, List.countP_cons]
        omega
  have := hsplit o.input
  simp only [Observer.inside, input_cleanup]
  simp only [Observer.cleanup, Observer.held]
  omega

theorem inside_awaitInput {w : Nat} {x : Worker μ} (hw : o.workers[w]? = some x)
    (hx : x.msg = none) : (o.awaitInput w).inside q = o.inside q := by
  have hset := fun y => countP_set_of hw y (Worker.has q)
  have hno : Worker.has q x = false := by simp [Worker.has, hx]
  simp only [hno, Bool.false_eq_true, if_false, Nat.add_zero] at hset
  unfold Observer.awaitInput
  split
  · simp only [Observer.inside, countP_held]
    rw [hset .waiting]
    rfl
  · rename_i m input hinput
    have hm : (o.workers.set w (.handling m)).countP (Worker.has q) =
      o.workers.countP (Worker.has q) + if q m then 1 else 0 := hset (.handling m)
    simp only [Observer.inside, countP_held, hinput, List.countP_cons]
    omega

/-- The work of a thread only moves messages. -/
theorem inside_work {w : Nat} (h : o.work w = some o') : o'.inside q = o.inside q := by
  unfold Observer.work at h
  obtain ⟨x, hw, hx⟩ := Option.map_eq_some_iff.mp h
  cases x with
  | running =>
    cases hx
    exact inside_awaitInput (o := { o with waitingThreads := o.waitingThreads + 1 }) hw rfl
  | waiting =>
    cases hx
    exact inside_awaitInput hw rfl
  | handling m =>
    cases hx
    have hm : (o.workers.set w (.handled m)).countP (Worker.has q) =
        o.workers.countP (Worker.has q) :=
      Nat.add_right_cancel (countP_set_of hw (.handled m) (Worker.has q))
    simp only [Observer.inside, countP_held, hm]
  | handled m =>
    cases hx
    have hm : (o.workers.set w .running).countP (Worker.has q) + (if q m then 1 else 0) =
      o.workers.countP (Worker.has q) := countP_set_of hw .running (Worker.has q)
    simp only [Observer.inside, countP_held, List.countP_append, List.countP_singleton]
    omega

/-- Those that wait to be put are counted too. -/
def Observer.pending (o : Observer μ) (q : μ → Bool) : Nat := o.inside q + o.blocked.countP q

theorem pending_eq : o.pending q = (o.input ++ o.held ++ o.output ++ o.blocked).countP q := by
  simp only [Observer.pending, Observer.inside, List.countP_append]

theorem pending_eq_zero : o.pending q = 0 ↔
    ∀ m ∈ o.input ++ o.held ++ o.output ++ o.blocked, q m = false := by
  rw [pending_eq, List.countP_eq_zero]
  simp only [Bool.not_eq_true]

/-- Two kinds that agree on what is in the pool. -/
theorem pending_congr {q' r : μ → Bool} (hr : o.pending r = 0)
    (h : ∀ m, r m = false → q m = q' m) : o.pending q = o.pending q' := by
  rw [pending_eq, pending_eq]
  refine List.countP_congr fun m hm => ?_
  rw [h m (pending_eq_zero.mp hr m hm)]

theorem pending_mono {q' : μ → Bool} (h : ∀ m, q m = true → q' m = true) :
    o.pending q ≤ o.pending q' := by
  rw [pending_eq, pending_eq]
  exact List.countP_mono_left fun m _ => h m

theorem pending_pos_of_output {m : μ} (hm : m ∈ o.output) (hq : q m = true) :
    0 < o.pending q := by
  rw [pending_eq, List.countP_pos_iff]
  exact ⟨m, by simp [hm], hq⟩

theorem pending_pos_of_worker {w : Nat} {x : Worker μ} {m : μ} (hw : o.workers[w]? = some x)
    (hx : x.msg = some m) (hq : q m = true) : 0 < o.pending q := by
  have hheld : m ∈ o.held := List.mem_filterMap.mpr ⟨x, List.mem_of_getElem? hw, hx⟩
  rw [pending_eq, List.countP_pos_iff]
  exact ⟨m, by simp [hheld], hq⟩

theorem pending_new : (Observer.new cfg : Observer μ).pending q = 0 := by
  simp [Observer.pending, Observer.inside, countP_held, Observer.new, Worker.has, Worker.msg]

theorem pending_enqueue (m : μ) :
    (o.enqueue m).pending q = o.pending q + if q m then 1 else 0 := by
  unfold Observer.enqueue
  split
  · simp only [Observer.pending, Observer.inside, Observer.held, List.countP_append,
      List.countP_singleton]
    omega
  · have hblocked : (o.push m).blocked = o.blocked := rfl
    simp only [Observer.pending, inside_push, hblocked]
    omega

theorem pending_put (m : μ) : (o.put cfg m).pending q = o.pending q + if q m then 1 else 0 := by
  unfold Observer.put
  split
  · rw [pending_enqueue]
    simp only [Observer.pending, inside_addWorker]
    rfl
  · exact pending_enqueue m

theorem pending_retryPut {i : Nat} (h : o.retryPut i = some o') : o'.pending q = o.pending q := by
  unfold Observer.retryPut at h
  obtain ⟨m, hm, heq⟩ := Option.map_eq_some_iff.mp h
  split at heq
  · cases heq
    rfl
  · cases heq
    have hpush := inside_push (o := o) (q := q) m
    have herase := countP_eraseIdx_of hm q
    simp only [Observer.pending]
    simp only [Observer.inside, Observer.held] at hpush ⊢
    omega

theorem pending_cleanup (p : μ → Bool) :
    (o.cleanup p).pending q + (o.input.filter p).countP q = o.pending q := by
  have hin := inside_cleanup (o := o) (q := q) p
  have hblocked : (o.cleanup p).blocked = o.blocked := rfl
  simp only [Observer.pending, hblocked]
  omega

theorem blocked_awaitInput (w : Nat) : (o.awaitInput w).blocked = o.blocked := by
  unfold Observer.awaitInput
  split <;> rfl

theorem pending_work {w : Nat} (h : o.work w = some o') : o'.pending q = o.pending q := by
  have hblocked : o'.blocked = o.blocked := by
    unfold Observer.work at h
    obtain ⟨x, -, hx⟩ := Option.map_eq_some_iff.mp h
    cases x with
    | running =>
      cases hx
      exact blocked_awaitInput (o := { o with waitingThreads := o.waitingThreads + 1 }) w
    | waiting =>
      cases hx
      exact blocked_awaitInput w
    | handling m =>
      cases hx
      rfl
    | handled m =>
      cases hx
      rfl
  rw [Observer.pending, inside_work h, hblocked]
  rfl

theorem pending_socketNotify (h : o.socketNotify = some o') : o'.pending q = o.pending q := by
  unfold Observer.socketNotify at h
  split at h
  · cases h
  · cases h
    rfl

/-- A delivered message leaves the pool. -/
theorem pending_drain (h : o.drain = some o') :
    o'.pending q + (o.output.take 1).countP q = o.pending q := by
  unfold Observer.drain at h
  split at h
  · split at h
    · rename_i hout
      cases h
      simp [hout, Observer.pending, Observer.inside, Observer.held]
    · rename_i m output hout
      cases h
      simp only [Observer.pending, Observer.inside, Observer.held, hout, List.countP_cons,
        List.take_succ_cons, List.take_zero, List.countP_nil]
      omega
  · cases h

/-! ## The output queue -/

theorem output_put (m : μ) : (o.put cfg m).output = o.output := by
  unfold Observer.put Observer.enqueue
  split <;> split <;> rfl

theorem output_retryPut {i : Nat} (h : o.retryPut i = some o') : o'.output = o.output := by
  unfold Observer.retryPut at h
  obtain ⟨m, -, heq⟩ := Option.map_eq_some_iff.mp h
  split at heq <;> cases heq <;> rfl

theorem output_awaitInput (w : Nat) : (o.awaitInput w).output = o.output := by
  unfold Observer.awaitInput
  split <;> rfl

theorem output_work {w : Nat} (h : o.work w = some o') :
    o'.output = o.output ++ match o.workers[w]? with
      | some (.handled m) => [m]
      | _ => [] := by
  unfold Observer.work at h
  obtain ⟨x, hw, hx⟩ := Option.map_eq_some_iff.mp h
  rw [hw]
  cases x with
  | running =>
    cases hx
    exact (output_awaitInput (o := { o with waitingThreads := o.waitingThreads + 1 }) w).trans
      (List.append_nil _).symm
  | waiting =>
    cases hx
    exact (output_awaitInput w).trans (List.append_nil _).symm
  | handling m =>
    cases hx
    exact (List.append_nil _).symm
  | handled m =>
    cases hx
    rfl

theorem output_socketNotify (h : o.socketNotify = some o') : o'.output = o.output := by
  unfold Observer.socketNotify at h
  split at h
  · cases h
  · cases h
    rfl

theorem output_drain (h : o.drain = some o') : o'.output = o.output.drop 1 := by
  unfold Observer.drain at h
  split at h
  · split at h
    · rename_i hout
      cases h
      simp [hout]
    · rename_i m output hout
      cases h
      simp [hout]
  · cases h

/-! ## Workers that have handled a message -/

section

variable {w w' : Nat} {m m' : μ}

theorem handled_set {l : List (Worker μ)} {x : Worker μ} (hx : x ≠ .handled m)
    (h : (l.set w x)[w']? = some (.handled m)) : l[w']? = some (.handled m) := by
  rw [List.getElem?_set] at h
  split at h
  · split at h
    · exact absurd (Option.some.inj h) hx
    · cases h
  · exact h

theorem handled_awaitInput (h : (o.awaitInput w).workers[w']? = some (.handled m)) :
    o.workers[w']? = some (.handled m) := by
  unfold Observer.awaitInput at h
  split at h
  · exact handled_set (by simp) h
  · exact handled_set (by simp) h

theorem workers_enqueue (m : μ) : (o.enqueue m).workers = o.workers := by
  unfold Observer.enqueue
  split <;> rfl

theorem handled_put (h : (o.put cfg m').workers[w]? = some (.handled m)) :
    o.workers[w]? = some (.handled m) := by
  unfold Observer.put at h
  split at h
  · rw [workers_enqueue] at h
    have happend : (o.workers ++ [.running])[w]? = some (.handled m) := h
    rw [List.getElem?_append] at happend
    split at happend
    · exact happend
    · have hmem := List.mem_of_getElem? happend
      cases List.mem_singleton.mp hmem
  · rwa [workers_enqueue] at h

theorem workers_retryPut {i : Nat} (h : o.retryPut i = some o') : o'.workers = o.workers := by
  obtain ⟨m, -, heq⟩ := Option.map_eq_some_iff.mp h
  split at heq <;> cases heq <;> rfl

theorem workers_socketNotify (h : o.socketNotify = some o') : o'.workers = o.workers := by
  unfold Observer.socketNotify at h
  split at h <;> cases h
  rfl

theorem workers_drain (h : o.drain = some o') : o'.workers = o.workers := by
  unfold Observer.drain at h
  split at h
  · split at h <;> cases h <;> rfl
  · cases h

/-- Only the worker that has been handling a message has handled it now. -/
theorem handled_work (h : o.work w = some o') (hw : o'.workers[w']? = some (.handled m)) :
    o.workers[w']? = some (.handled m) ∨ o.workers[w]? = some (.handling m) := by
  unfold Observer.work at h
  obtain ⟨x, hx, heq⟩ := Option.map_eq_some_iff.mp h
  cases x with
  | running =>
    cases heq
    exact .inl (handled_awaitInput (o := { o with waitingThreads := o.waitingThreads + 1 }) hw)
  | waiting =>
    cases heq
    exact .inl (handled_awaitInput hw)
  | handling m' =>
    cases heq
    by_cases hm : m' = m
    · exact .inr (hm ▸ hx)
    · exact .inl (handled_set (fun h => hm (Worker.handled.inj h)) hw)
  | handled m' =>
    cases heq
    exact .inl (handled_set (by simp) hw)

end

/-! ## The invariant -/

structure Sound (cfg : Config) (o : Observer μ) : Prop where
  /-- Every message that was put is in one place. -/
  places : ∀ q, o.inside q + o.delivered.countP q + o.cleaned.countP q = o.puts.countP q
  /-- Taken in the order of `put`. -/
  order : (o.taken ++ o.input).Sublist o.puts
  bound : o.input.length ≤ o.noThreads * queueSizePerThread
  threads : o.noThreads = o.workers.length
  waiting : o.waitingThreads = o.workers.countP Worker.isWaiting
  min : cfg.minThreads ≤ o.noThreads
  max : o.noThreads ≤ Nat.max cfg.minThreads cfg.maxThreads
  /-- Nothing waits in the output queue without a byte in the pipe. -/
  woken : o.draining = false → o.output ≠ [] → 0 < o.pipe

theorem sound_new : Sound cfg (Observer.new cfg : Observer μ) where
  places q := by
    simp [Observer.inside, countP_held, Observer.new, Worker.has, Worker.msg]
  order := .slnil
  bound := Nat.zero_le _
  threads := (List.length_replicate).symm
  waiting := by
    rw [Observer.new, List.countP_eq_zero.mpr]
    intro x hx
    rw [List.eq_of_mem_replicate hx]
    exact Bool.false_ne_true
  min := Nat.le_refl _
  max := Nat.le_max_left _ _
  woken _ h := absurd rfl h

theorem Sound.addWorker (h : Sound cfg o) (hlt : o.noThreads < cfg.maxThreads) :
    Sound cfg o.addWorker where
  places q := by
    rw [inside_addWorker]
    exact h.places q
  order := h.order
  bound := by
    have := h.bound
    simp only [Observer.addWorker, queueSizePerThread] at this ⊢
    omega
  threads := by simp [Observer.addWorker, h.threads]
  waiting := by simp [Observer.addWorker, h.waiting, Worker.isWaiting]
  min := Nat.le_succ_of_le h.min
  max := Nat.le_trans hlt (Nat.le_max_right _ _)
  woken := h.woken

theorem Sound.push (h : Sound cfg o) (hfull : o.isFull = false) (m : μ) :
    Sound cfg (o.push m) where
  places q := by
    have := h.places q
    rw [inside_push]
    simp only [Observer.push, List.countP_append, List.countP_singleton]
    omega
  order := by
    have := h.order.append (List.Sublist.refl [m])
    rwa [List.append_assoc] at this
  bound := by
    simp only [Observer.isFull, decide_eq_false_iff_not, not_le] at hfull
    rw [Observer.push, List.length_append]
    exact hfull
  threads := h.threads
  waiting := h.waiting
  min := h.min
  max := h.max
  woken := h.woken

/-- Only the calls of `put` that wait have changed. -/
theorem Sound.block (h : Sound cfg o) (blocked : List μ) :
    Sound cfg { o with blocked := blocked } :=
  ⟨h.places, h.order, h.bound, h.threads, h.waiting, h.min, h.max, h.woken⟩

theorem Sound.enqueue (h : Sound cfg o) (m : μ) : Sound cfg (o.enqueue m) := by
  unfold Observer.enqueue
  split
  · exact h.block _
  · rename_i hfull
    exact h.push (by simpa using hfull) m

theorem Sound.put (h : Sound cfg o) (m : μ) : Sound cfg (o.put cfg m) := by
  unfold Observer.put
  split
  · rename_i hlt
    exact (h.addWorker hlt.2).enqueue m
  · exact h.enqueue m

theorem Sound.retryPut (h : Sound cfg o) {i : Nat} (hs : o.retryPut i = some o') :
    Sound cfg o' := by
  unfold Observer.retryPut at hs
  obtain ⟨m, -, hm⟩ := Option.map_eq_some_iff.mp hs
  split at hm
  · cases hm
    exact h
  · rename_i hfull
    cases hm
    exact (h.push (by simpa using hfull) m).block _

theorem Sound.cleanup (h : Sound cfg o) (p : μ → Bool) : Sound cfg (o.cleanup p) where
  places q := by
    have := h.places q
    have hin := inside_cleanup (o := o) (q := q) p
    rw [cleaned_cleanup, List.countP_append]
    simp only [Observer.cleanup] at hin ⊢
    omega
  order := by
    rw [input_cleanup]
    exact (List.Sublist.append (.refl _) List.filter_sublist).trans h.order
  bound := by
    rw [input_cleanup]
    exact Nat.le_trans (List.length_filter_le _ _) h.bound
  threads := h.threads
  waiting := h.waiting
  min := h.min
  max := h.max
  woken := h.woken

/-- A thread that waits, or is about to, is counted as waiting and has no message. -/
theorem Sound.awaitInput {w : Nat} {x : Worker μ} (h : Sound cfg o)
    (hw : o.workers[w]? = some x) (hx : x.msg = none)
    {n : Nat} (hn : n + (if x.isWaiting then 1 else 0) =
      o.workers.countP Worker.isWaiting + 1) :
    Sound cfg ({ o with waitingThreads := n }.awaitInput w) where
  places q := by
    rw [inside_awaitInput (o := { o with waitingThreads := n }) hw hx]
    have := h.places q
    unfold Observer.awaitInput
    split <;> exact this
  order := by
    have := h.order
    unfold Observer.awaitInput
    split
    · exact this
    · rename_i m input hinput
      simp only at hinput ⊢
      rw [hinput] at this
      rwa [List.append_assoc, List.singleton_append]
  bound := by
    have := h.bound
    unfold Observer.awaitInput
    split
    · exact this
    · rename_i m input hinput
      simp only at hinput
      rw [hinput, List.length_cons] at this
      exact Nat.le_of_succ_le this
  threads := by
    unfold Observer.awaitInput
    split <;> simp [h.threads]
  waiting := by
    unfold Observer.awaitInput
    split
    · have hset : (o.workers.set w .waiting).countP Worker.isWaiting +
          (if x.isWaiting then 1 else 0) = o.workers.countP Worker.isWaiting + 1 :=
        countP_set_of hw .waiting Worker.isWaiting
      exact Nat.add_right_cancel (hn.trans hset.symm)
    · rename_i m input hinput
      have hset : (o.workers.set w (.handling m)).countP Worker.isWaiting +
          (if x.isWaiting then 1 else 0) = o.workers.countP Worker.isWaiting :=
        countP_set_of hw (.handling m) Worker.isWaiting
      simp only
      omega
  min := by
    unfold Observer.awaitInput
    split <;> exact h.min
  max := by
    unfold Observer.awaitInput
    split <;> exact h.max
  woken := by
    unfold Observer.awaitInput
    split <;> exact h.woken

theorem Sound.work (h : Sound cfg o) {w : Nat} (hs : o.work w = some o') : Sound cfg o' := by
  have hin := fun q => inside_work (q := q) hs
  unfold Observer.work at hs
  obtain ⟨x, hw, hx⟩ := Option.map_eq_some_iff.mp hs
  have hcount := fun y => countP_set_of hw y Worker.isWaiting
  cases x with
  | running =>
    cases hx
    exact h.awaitInput hw rfl (congrArg (· + 1) h.waiting)
  | waiting =>
    cases hx
    exact h.awaitInput hw rfl (congrArg (· + 1) h.waiting)
  | handling m =>
    cases hx
    refine ⟨fun q => ?_, h.order, h.bound, by simp [h.threads], ?_, h.min, h.max, h.woken⟩
    · rw [hin q]
      exact h.places q
    · exact h.waiting.trans (hcount (.handled m)).symm
  | handled m =>
    cases hx
    refine ⟨fun q => ?_, h.order, h.bound, by simp [h.threads], ?_, h.min, h.max, ?_⟩
    · rw [hin q]
      exact h.places q
    · exact h.waiting.trans (hcount .running).symm
    · intro _ _
      exact Nat.succ_pos _

theorem Sound.socketNotify (h : Sound cfg o) (hs : o.socketNotify = some o') : Sound cfg o' := by
  unfold Observer.socketNotify at hs
  split at hs
  · cases hs
  · cases hs
    exact ⟨h.places, h.order, h.bound, h.threads, h.waiting, h.min, h.max, fun hd => by cases hd⟩

/-- The loop is only left when the output queue is empty. -/
theorem Sound.drain (h : Sound cfg o) (hs : o.drain = some o') : Sound cfg o' := by
  unfold Observer.drain at hs
  split at hs
  · rename_i hdraining
    split at hs
    · rename_i hout
      cases hs
      exact ⟨h.places, h.order, h.bound, h.threads, h.waiting, h.min, h.max,
        fun _ hne => absurd hout hne⟩
    · rename_i m output hout
      cases hs
      refine ⟨fun q => ?_, h.order, h.bound, h.threads, h.waiting, h.min, h.max,
        fun hd => by rw [hdraining] at hd; cases hd⟩
      have := h.places q
      simp only [Observer.inside, hout, List.countP_cons, Observer.held, List.countP_append,
        List.countP_nil] at this ⊢
      omega
  · cases hs

theorem sound_step {a : Label μ} (h : Sound cfg o) (hs : step cfg o a = some o') :
    Sound cfg o' := by
  cases a with
  | put m =>
    cases hs
    exact h.put m
  | retryPut i => exact h.retryPut hs
  | cleanup p =>
    cases hs
    exact h.cleanup p
  | worker w => exact h.work hs
  | socketNotify => exact h.socketNotify hs
  | drain => exact h.drain hs

theorem sound_of_reach {ok : Observer μ → Label μ → Prop} (h : Reach (step cfg) (init cfg) ok o) :
    Sound cfg o :=
  h.invariant (fun _ hi => hi ▸ sound_new) fun _ _ _ hi _ hs => sound_step hi hs

/-- In every run: the messages that were put are those in the input queue, with a worker, in the
output queue, delivered and deleted, each once; workers have taken them in the order of `put`; the
input queue has at most 64 for each thread; `cleanup` deletes the queued messages it is for and
nothing else; and while the output queue is not empty and not being emptied, the pipe has a byte. -/
theorem messages_conserved [DecidableEq μ] (cfg : Config) {o : Observer μ}
    (h : Reach (step cfg) (init cfg) Any o) :
    (o.input ++ o.held ++ o.output ++ o.delivered ++ o.cleaned).Perm o.puts ∧
    (o.taken ++ o.input).Sublist o.puts ∧
    (o.noThreads = o.workers.length ∧ cfg.minThreads ≤ o.noThreads ∧
      o.noThreads ≤ Nat.max cfg.minThreads cfg.maxThreads ∧
      o.input.length ≤ 64 * o.noThreads) ∧
    (∀ p o', step cfg o (.cleanup p) = some o' →
      o'.input = o.input.filter (fun m => !p m) ∧ o'.cleaned = o.cleaned ++ o.input.filter p ∧
      o'.workers = o.workers ∧ o'.output = o.output ∧ o'.delivered = o.delivered) ∧
    (o.output ≠ [] → o.draining = false → 0 < o.pipe) := by
  have hi := sound_of_reach h
  refine ⟨?_, hi.order, ⟨hi.threads, hi.min, hi.max, ?_⟩, fun p o' hs => ?_,
    fun hne hd => hi.woken hd hne⟩
  · rw [List.perm_iff_count]
    intro m
    have := hi.places (· == m)
    simp only [List.count_append]
    exact this
  · have := hi.bound
    simp only [queueSizePerThread] at this
    omega
  · cases hs
    exact ⟨input_cleanup p, cleaned_cleanup p, rfl, rfl, rfl⟩

/-- One worker, two messages: the byte of the first wakes the event loop, the second is deleted. -/
theorem messages_conserved_two : ∃ o : Observer Nat, o.output = [1] ∧ o.cleaned = [2] ∧
    0 < o.pipe := by
  have hrun : (run (step ⟨1, 1⟩) (.new ⟨1, 1⟩)
      [.put 1, .put 2, .worker 0, .worker 0, .cleanup (· == 2), .worker 0]).any
      (fun o => o.output = [1] ∧ o.cleaned = [2] ∧ o.draining = false) := by
    decide
  have hinit : init ⟨1, 1⟩ (.new ⟨1, 1⟩ : Observer Nat) := rfl
  obtain ⟨o, hr, ho⟩ := Reach.exists_of_run hinit (runOk_any _ _) hrun
  simp only [decide_eq_true_eq] at ho
  obtain ⟨hout, hcleaned, hdraining⟩ := ho
  have hne : o.output ≠ [] := by simp [hout]
  exact ⟨o, hout, hcleaned, (messages_conserved ⟨1, 1⟩ hr).2.2.2.2 hne hdraining⟩

end ThreadPool
end Metaproxy
