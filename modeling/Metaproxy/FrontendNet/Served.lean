import Metaproxy.FrontendNet.Forwarded
import Metaproxy.FrontendNet.Order

/-!
# FrontendNet.Served

What the filters do comes out at the connections, in every run of the event loop and the workers:
what is sent on one is the answer to a package of the same connection, and is sent once
(`answers_own_request`).

What the filters may make of a package is a parameter, so that they may keep any state; it is the
labels of the workers that it says something about (`FilteredBy`).
-/

namespace Metaproxy
namespace FrontendNet

open Lib
open Clients (Session SessionId)
open ThreadPool

variable {ζ : Type*}

/-! ## What the filters answer -/

/-- What may become of a package with the session, the origin and the request: its response, and
whether its session is closed. -/
abbrev Filters (ζ : Type*) := Session → Origin → Option (Gdu ζ) → Option (Gdu ζ) → Bool → Prop

/-- A package comes back from `move` with what the filters may make of it. -/
def FilteredBy (filters : Filters ζ) (s : St ζ) : Label ζ → Prop
  | .worker w response closed => ∀ p, s.pool.workers[w]? = some (.handling p) →
    filters (s.packages p).session (s.packages p).origin (s.packages p).request response closed
  | _ => True

theorem FilteredBy.mono {filters filters' : Filters ζ} {s : St ζ} {a : Label ζ}
    (hle : ∀ session origin request response closed,
      filters session origin request response closed →
        filters' session origin request response closed)
    (h : FilteredBy filters s a) : FilteredBy filters' s a := by
  cases a with
  | worker w response closed => exact fun p hw => hle _ _ _ _ _ (h p hw)
  | connect address => trivial
  | recvGDU c gdu conSz => trivial
  | failNotify c => trivial
  | timeoutNotify c => trivial
  | retryPut => trivial
  | socketNotify => trivial
  | drain => trivial

def Package.Filtered (filters : Filters ζ) (pkg : Package ζ) : Prop :=
  ∃ session closed, filters session pkg.origin pkg.request pkg.response closed ∧
    pkg.session = { session with isClosed := session.isClosed || closed }

variable {filters : Filters ζ} {matchGlob : List Char → List Char → Bool} {cfg : Config} {rep : Rep}
  {s s' : St ζ} {c : SessionId} {child : ZAssocChild}

/-- The package is in the pool or about to be put. -/
def St.InPool (s : St ζ) (p : PackageId) : Prop := 0 < s.pool.pending (fun p' => p' = p)

/-! ## The steps -/

/-- No package gets on in the step. -/
structure Still (s s' : St ζ) : Prop extends Quiet s s' where
  packages : ∀ p, p < s.made → s'.packages p = s.packages p
  sent : ∀ c p gdu, .sent c p gdu ∈ s'.log → .sent c p gdu ∈ s.log
  handled : ∀ (w : Nat) (p : PackageId), s'.pool.workers[w]? = some (.handled p) →
    s.pool.workers[w]? = some (.handled p)
  /-- Only a package that tells of a close is without a request of the connection. -/
  requests : ∀ p, s.made ≤ p → p < s'.made →
    p ∈ s'.received (s'.packages p).session.id ∨ (s'.packages p).request = none

inductive Serving (s : St ζ) (a : Label ζ) (s' : St ζ) : Prop where
  | still : Still s s' → Serving s a s'
  | handle (w : Nat) (response : Option (Gdu ζ)) (closed : Bool) (p : PackageId)
      (pool : Observer PackageId) :
      a = .worker w response closed → s.pool.workers[w]? = some (.handling p) →
      s.pool.work w = some pool → s' = { handle s p response closed with pool } → Serving s a s'
  | finish (w : Nat) (p : PackageId) (pool : Observer PackageId) :
      s.pool.workers[w]? = some (.handled p) → s.pool.work w = some pool → s' = s.push p pool →
      Serving s a s'
  | deliver (p : PackageId) (rest : List PackageId) (pool : Observer PackageId) :
      s.pool.output = p :: rest → s.pool.drain = some pool → s' = result { s with pool } p →
      Serving s a s'

theorem still_pool {pool : Observer PackageId} (hquiet : Quiet s { s with pool })
    (hhandled : ∀ (w : Nat) (p : PackageId), pool.workers[w]? = some (.handled p) →
      s.pool.workers[w]? = some (.handled p)) : Still s { s with pool } where
  toQuiet := hquiet
  packages _ _ := rfl
  sent _ _ _ h := h
  handled := hhandled
  requests _ hle hlt := absurd hlt (Nat.not_lt.mpr hle)

theorem newPackage_packages {p : PackageId} (hp : p < s.made) (pkg : Package ζ) :
    (s.newPackage pkg).packages p = s.packages p := Function.update_of_ne (Nat.ne_of_lt hp) ..

theorem received_record (c c' : SessionId) (p : PackageId) :
    (s.record (.received c p)).received c' =
      if c = c' then s.received c' ++ [p] else s.received c' := by
  by_cases hc : c = c'
  · simp [St.received, St.record, Event.receivedOf, hc]
  · simp [St.received, St.record, Event.receivedOf, hc]

theorem still_recvGDU (hid : child.session.id = c) (gdu : Option (Gdu ζ)) (conSz : Int) :
    Still s (recvGDU matchGlob cfg rep s c child gdu conSz) := by
  have hquiet : Quiet s (recvGDU matchGlob cfg rep s c child gdu conSz) :=
    quiet_recvGDU s c child gdu conSz
  refine { hquiet with packages := ?_, sent := ?_, handled := ?_, requests := ?_ }
  · intro p hp
    unfold recvGDU
    split
    · exact newPackage_packages hp _
    · exact newPackage_packages hp _
  · intro c' p gdu' hsent
    unfold recvGDU at hsent
    split at hsent
    · simpa [St.deleteChild, St.record, St.newPackage, St.setChild] using hsent
    · simpa [St.put, St.record, St.newPackage, St.setChild] using hsent
  · intro w p hw
    unfold recvGDU at hw
    split at hw
    · exact hw
    · exact handled_put hw
  · intro p hle hlt
    have hmade : (recvGDU matchGlob cfg rep s c child gdu conSz).made = s.made + 1 := by
      unfold recvGDU
      split <;> rfl
    have hp : p = s.made := by omega
    subst hp
    refine .inl ?_
    -- the new package is the one that is received, on either path
    unfold recvGDU
    split
    · simp [St.deleteChild, St.record, St.newPackage, St.setChild, hid, St.received,
        Event.receivedOf]
    · simp [St.put, St.record, St.newPackage, St.setChild, hid, St.received, Event.receivedOf]

theorem still_connect (s : St ζ) (address : List Char) : Still s (connect s address) where
  toQuiet := quiet_connect s address
  packages _ _ := rfl
  sent _ _ _ h := h
  handled _ _ h := h
  requests _ hle hlt := absurd hlt (Nat.not_lt.mpr hle)

theorem still_failNotify (s : St ζ) (c : SessionId) (child : ZAssocChild) :
    Still s (failNotify cfg s c child) := by
  have hquiet : Quiet s (failNotify cfg s c child) := quiet_failNotify s c child
  refine { hquiet with packages := ?_, sent := ?_, handled := ?_, requests := ?_ }
  · intro p hp
    unfold failNotify
    split
    · split <;> rfl
    · exact newPackage_packages hp _
  · intro c' p gdu hsent
    unfold failNotify at hsent
    split at hsent
    · split at hsent
      · simpa [St.deleteChild, St.record] using hsent
      · exact hsent
    · rcases List.mem_append.mp hsent with hnote | hold
      · obtain ⟨q, -, hq⟩ := List.mem_map.mp (List.mem_reverse.mp hnote)
        cases hq
      · exact hold
  · intro w p hw
    unfold failNotify at hw
    split at hw
    · split at hw
      · exact hw
      · exact hw
    · let pkg : Package ζ := ⟨{ child.session with isClosed := true }, child.origin, none, none⟩
      have hclean : (s.pool.cleanup ((s.newPackage pkg).isOf c)).workers[w]? =
          some (.handled p) := handled_put hw
      exact hclean
  · intro p hle hlt
    unfold failNotify at hlt ⊢
    split at hlt
    · split at hlt
      · exact absurd hlt (Nat.not_lt.mpr hle)
      · exact absurd hlt (Nat.not_lt.mpr hle)
    · rename_i hopen
      have hp : p = s.made := Nat.le_antisymm (Nat.le_of_lt_succ hlt) hle
      subst hp
      rw [if_neg hopen]
      right
      simp [putClose, cleanup, St.put, St.newPackage, St.setChild]

theorem work_serving {w : Nat} {response : Option (Gdu ζ)} {closed : Bool}
    (hs : work s w response closed = some s') : Serving s (.worker w response closed) s' := by
  obtain ⟨pool, hpool, heq⟩ := Option.map_eq_some_iff.mp hs
  have hout := output_work hpool
  split at heq
  · rename_i p hw
    exact .handle w response closed p pool rfl hw hpool heq.symm
  · rename_i p hw
    exact .finish w p pool hw hpool heq.symm
  · rename_i hno hno'
    cases heq
    refine .still (still_pool (quiet_pool ?_ fun q => pending_work hpool) fun w' p hw' => ?_)
    · rw [hout]
      split
      · rename_i p hw
        exact absurd hw (hno' p)
      · exact List.append_nil _
    · exact (handled_work hpool hw').resolve_right fun hw => absurd hw (hno p)

theorem step_serving (hown : ∀ c child, s.children.lookup c = some child → child.session.id = c)
    {a : Label ζ} (hs : step matchGlob cfg rep s a = some s') : Serving s a s' := by
  cases a with
  | connect address =>
    simp only [step] at hs
    split at hs
    · cases hs
      exact .still (still_connect s address)
    · cases hs
  | recvGDU c gdu conSz =>
    simp only [step] at hs
    split at hs
    · obtain ⟨child, hc, rfl⟩ := Option.map_eq_some_iff.mp hs
      exact .still (still_recvGDU (hown c child hc) gdu conSz)
    · cases hs
  | failNotify c =>
    simp only [step] at hs
    split at hs
    · obtain ⟨child, hc, rfl⟩ := Option.map_eq_some_iff.mp hs
      exact .still (still_failNotify s c child)
    · cases hs
  | timeoutNotify c =>
    simp only [step] at hs
    split at hs
    · obtain ⟨child, hc, rfl⟩ := Option.map_eq_some_iff.mp hs
      exact .still (still_failNotify s c child)
    · cases hs
  | retryPut =>
    obtain ⟨pool, hpool, rfl⟩ := Option.map_eq_some_iff.mp hs
    refine .still (still_pool (quiet_pool (output_retryPut hpool) fun q => pending_retryPut hpool)
      fun w p hw => ?_)
    rwa [workers_retryPut hpool] at hw
  | socketNotify =>
    simp only [step] at hs
    split at hs
    · obtain ⟨pool, hpool, rfl⟩ := Option.map_eq_some_iff.mp hs
      refine .still (still_pool
        (quiet_pool (output_socketNotify hpool) fun q => pending_socketNotify hpool)
        fun w p hw => ?_)
      rwa [workers_socketNotify hpool] at hw
    · cases hs
  | drain =>
    simp only [step] at hs
    split at hs
    · obtain ⟨pool, hpool, heq⟩ := Option.map_eq_some_iff.mp hs
      split at heq
      · rename_i hout
        cases heq
        have hdrop := output_drain hpool
        rw [hout] at hdrop
        refine .still (still_pool (quiet_pool (hdrop.trans hout.symm) fun q => ?_) fun w p hw => ?_)
        · have hpending := pending_drain (q := q) hpool
          rw [hout] at hpending
          exact hpending
        · rwa [workers_drain hpool] at hw
      · rename_i p rest hout
        exact .deliver p rest pool hout hpool heq.symm
    · cases hs
  | worker w response closed => exact work_serving hs

/-! ## What is sent -/

/-- Packages that have been handled have been through the filters, and only their answers have been
sent. -/
structure Serves (filters : Filters ζ) (s : St ζ) : Prop where
  handled : ∀ (w : Nat) (p : PackageId), s.pool.workers[w]? = some (.handled p) →
    (s.packages p).Filtered filters
  finished : ∀ c, ∀ p ∈ s.finished c, (s.packages p).session.id = c ∧
    (s.packages p).Filtered filters
  sent : ∀ c p gdu, .sent c p gdu ∈ s.log → p ∈ s.finished c ∧
    (s.packages p).answer.1 = some gdu
  requests : ∀ p, s.InPool p ∨ (∃ c, p ∈ s.finished c) →
    p ∈ s.received (s.packages p).session.id ∨ (s.packages p).request = none

theorem serves_of_init (h : init cfg s) : Serves filters s := by
  obtain ⟨hpool, -, hlog⟩ := h
  refine ⟨fun w p hw => ?_, fun c p hp => ?_, fun c p gdu hsent => ?_, ?_⟩
  · rw [hpool] at hw
    cases List.eq_of_mem_replicate (List.mem_of_getElem? hw)
  · rw [St.finished, hlog] at hp
    cases hp
  · rw [hlog] at hsent
    cases hsent
  · rintro p (hp | ⟨c, hp⟩)
    · rw [St.InPool, hpool, pending_new] at hp
      cases hp
    · rw [St.finished, hlog] at hp
      cases hp

theorem Traced.made_of_inPool (ht : Traced s) {p : PackageId} (hp : s.InPool p) : p < s.made := by
  by_contra hle
  have hmono : s.pool.pending (fun p' => p' = p) ≤ s.pool.pending (fun p => s.made ≤ p) :=
    pending_mono fun p' hp' => decide_eq_true (of_decide_eq_true hp' ▸ Nat.le_of_not_lt hle)
  rw [ht.fresh] at hmono
  exact Nat.lt_irrefl 0 (Nat.lt_of_lt_of_le hp hmono)

theorem inPool_of_worker {w : Nat} {p : PackageId} {x : Worker PackageId}
    (hw : s.pool.workers[w]? = some x) (hx : x.msg = some p) : s.InPool p :=
  pending_pos_of_worker hw hx (decide_eq_true rfl)

theorem Traced.worker_made (ht : Traced s) {w : Nat} {p : PackageId} {x : Worker PackageId}
    (hw : s.pool.workers[w]? = some x) (hx : x.msg = some p) : p < s.made :=
  ht.made_of_inPool (inPool_of_worker hw hx)

/-- A worker does not have a package that has been finished. -/
theorem Traced.worker_ne (ht : Traced s) {w : Nat} {p p' : PackageId} {x : Worker PackageId}
    (hw : s.pool.workers[w]? = some x) (hx : x.msg = some p) (hp : p' ∈ s.finished c) :
    p' ≠ p := by
  rintro rfl
  have hheld : p' ∈ s.pool.held := List.mem_filterMap.mpr ⟨x, List.mem_of_getElem? hw, hx⟩
  have hpos : 0 < s.pool.held.countP (fun p => p = p') :=
    List.countP_pos_iff.mpr ⟨p', hheld, decide_eq_true rfl⟩
  have hzero := ht.done c p' hp
  rw [St.unfinished] at hzero
  omega

theorem Quiet.received_mono (h : Quiet s s') {p : PackageId} (hp : p ∈ s.received c) :
    p ∈ s'.received c := by
  rcases h.received c with heq | ⟨heq, -⟩
  · rwa [heq]
  · rw [heq]
    exact List.mem_append_left _ hp

/-- What a quiet step puts is new. -/
theorem Quiet.inPool (h : Quiet s s') {p : PackageId} (hp : s'.InPool p) :
    s.InPool p ∨ p = s.made ∧ s.made < s'.made := by
  have hle := h.pending fun p' => p' = p
  split at hle
  · rename_i hnew
    exact .inr ⟨(of_decide_eq_true hnew.1).symm, hnew.2⟩
  · exact .inl (Nat.lt_of_lt_of_le hp hle)

theorem Serves.still (h : Serves filters s) (ht : Traced s) (hs : Still s s') :
    Serves filters s' := by
  have hrequests {p : PackageId} (hlt : p < s.made)
      (hp : s.InPool p ∨ ∃ c, p ∈ s.finished c) :
      p ∈ s'.received (s'.packages p).session.id ∨ (s'.packages p).request = none := by
    rw [hs.packages p hlt]
    exact (h.requests p hp).imp_left hs.toQuiet.received_mono
  refine ⟨fun w p hw => ?_, fun c p hp => ?_, fun c p gdu hsent => ?_, ?_⟩
  · have hold := hs.handled w p hw
    rw [hs.packages p (ht.worker_made hold rfl)]
    exact h.handled w p hold
  · rw [hs.finished] at hp
    rw [hs.packages p (ht.finishedMade c p hp)]
    exact h.finished c p hp
  · obtain ⟨hfinished, hanswer⟩ := h.sent c p gdu (hs.sent c p gdu hsent)
    rw [hs.finished, hs.packages p (ht.finishedMade c p hfinished)]
    exact ⟨hfinished, hanswer⟩
  · rintro p (hp | ⟨c, hp⟩)
    · rcases hs.toQuiet.inPool hp with hold | ⟨rfl, hlt⟩
      · exact hrequests (ht.made_of_inPool hold) (.inl hold)
      · exact hs.requests s.made (Nat.le_refl _) hlt
    · rw [hs.finished] at hp
      exact hrequests (ht.finishedMade c p hp) (.inr ⟨c, hp⟩)

/-- The package that has come back is as the filters have made it, and the others are as before. -/
theorem Serves.handle (h : Serves filters s) (ht : Traced s) {w : Nat}
    {response : Option (Gdu ζ)} {closed : Bool} {p : PackageId} {pool : Observer PackageId}
    (hw : s.pool.workers[w]? = some (.handling p)) (hpool : s.pool.work w = some pool)
    (hok : filters (s.packages p).session (s.packages p).origin (s.packages p).request response
      closed) :
    Serves filters { handle s p response closed with pool } := by
  have hself : ((FrontendNet.handle s p response closed).packages p).Filtered filters := by
    refine ⟨(s.packages p).session, closed, ?_, ?_⟩
    · simpa [FrontendNet.handle] using hok
    · simp [FrontendNet.handle]
  have hother {p' : PackageId} (hne : p' ≠ p) :
      (FrontendNet.handle s p response closed).packages p' = s.packages p' :=
    Function.update_of_ne hne ..
  have hfiltered {p' : PackageId} (hold : (s.packages p').Filtered filters) :
      ((FrontendNet.handle s p response closed).packages p').Filtered filters := by
    by_cases hp : p' = p
    · exact hp ▸ hself
    · rwa [hother hp]
  have hrequests {p' : PackageId} (hp' : s.InPool p' ∨ ∃ c, p' ∈ s.finished c) :
      p' ∈ s.received ((FrontendNet.handle s p response closed).packages p').session.id ∨
        ((FrontendNet.handle s p response closed).packages p').request = none := by
    have hrequest := h.requests p' hp'
    by_cases hp : p' = p
    · subst hp
      simpa [FrontendNet.handle] using hrequest
    · rwa [← hother hp] at hrequest
  refine ⟨fun w' p' hw' => ?_, fun c p' hp' => ?_, fun c p' gdu hsent => ?_, ?_⟩
  · rcases handled_work hpool hw' with hold | hold
    · exact hfiltered (h.handled w' p' hold)
    · rw [hw] at hold
      cases hold
      exact hself
  · obtain ⟨hid, hold⟩ := h.finished c p' hp'
    have hsame := hother (ht.worker_ne hw rfl hp')
    exact ⟨(congrArg (fun pkg => pkg.session.id) hsame).trans hid, hfiltered hold⟩
  · have hold : .sent c p' gdu ∈ s.log := by
      simpa [FrontendNet.handle] using hsent
    obtain ⟨hfinished, hanswer⟩ := h.sent c p' gdu hold
    refine ⟨hfinished, ?_⟩
    rw [← hanswer]
    exact congrArg (fun pkg => pkg.answer.1) (hother (ht.worker_ne hw rfl hfinished))
  · rintro p' (hp' | hp')
    · refine hrequests (.inl ?_)
      have hpending : 0 < pool.pending (fun q => q = p') := hp'
      rwa [pending_work hpool] at hpending
    · exact hrequests (.inr hp')

theorem Serves.finish (h : Serves filters s) {w : Nat} {p : PackageId}
    {pool : Observer PackageId} (hw : s.pool.workers[w]? = some (.handled p))
    (hpool : s.pool.work w = some pool) : Serves filters (s.push p pool) := by
  refine ⟨fun w' p' hw' => ?_, fun c p' hp' => ?_, fun c p' gdu hsent => ?_, ?_⟩
  · rcases handled_work hpool hw' with hold | hold
    · exact h.handled w' p' hold
    · rw [hw] at hold
      cases hold
  · rw [finished_push] at hp'
    split at hp'
    · rename_i hc
      rcases List.mem_append.mp hp' with hp' | hp'
      · exact h.finished c p' hp'
      · rw [List.mem_singleton.mp hp']
        exact ⟨hc, h.handled w p hw⟩
    · exact h.finished c p' hp'
  · have hold : .sent c p' gdu ∈ s.log := by
      simpa [St.push, St.record] using hsent
    obtain ⟨hfinished, hanswer⟩ := h.sent c p' gdu hold
    refine ⟨?_, hanswer⟩
    rw [finished_push]
    split
    · exact List.mem_append_left _ hfinished
    · exact hfinished
  · rintro p' (hp' | ⟨c, hp'⟩)
    · have hpending : 0 < pool.pending (fun q => q = p') := hp'
      rw [pending_work hpool] at hpending
      exact h.requests p' (.inl hpending)
    · rw [finished_push] at hp'
      split at hp'
      · rcases List.mem_append.mp hp' with hp' | hp'
        · exact h.requests p' (.inr ⟨c, hp'⟩)
        · rw [List.mem_singleton.mp hp']
          exact h.requests p (.inl (inPool_of_worker hw rfl))
      · exact h.requests p' (.inr ⟨c, hp'⟩)

/-- What is sent in the delivery of a package is its answer. -/
theorem sent_result {p p' : PackageId} {gdu : Gdu ζ}
    (h : .sent c p' gdu ∈ (result s p).log) :
    .sent c p' gdu ∈ s.log ∨
      p' = p ∧ (s.packages p).session.id = c ∧ (s.packages p).answer.1 = some gdu := by
  rcases ha : (s.packages p).answer with ⟨answer, session⟩
  unfold result at h
  simp only [ha] at h
  split at h
  · exact .inl (by simpa [St.record] using h)
  · cases answer with
    | none =>
      simp only [Option.elim_none] at h
      split at h
      · exact .inl (by simpa [St.record, St.setChild] using h)
      · exact .inl (by simpa [St.record, St.setChild] using h)
    | some answer =>
      have hsent : .sent c p' gdu = Event.sent (s.packages p).session.id p answer ∨
          .sent c p' gdu ∈ s.log := by
        simp only [Option.elim_some] at h
        split at h
        · simpa [St.record, St.setChild] using h
        · simpa [St.record, St.setChild] using h
      rcases hsent with hnew | hold
      · cases hnew
        exact .inr ⟨rfl, rfl, rfl⟩
      · exact .inl hold

theorem Traced.output_finished (ht : Traced s) {p : PackageId} (hp : p ∈ s.pool.output) :
    p ∈ s.finished (s.packages p).session.id := by
  refine (ht.order _).subset (List.mem_append_right _ (List.mem_filter.mpr ⟨hp, ?_⟩))
  exact decide_eq_true rfl

theorem Serves.deliver (h : Serves filters s) (ht : Traced s) {p : PackageId}
    {rest : List PackageId} {pool : Observer PackageId} (hout : s.pool.output = p :: rest)
    (hpool : s.pool.drain = some pool) : Serves filters (result { s with pool } p) := by
  obtain ⟨hd, hsame⟩ := result_delivers { s with pool } p
  refine ⟨fun w p' hw => ?_, fun c p' hp' => ?_, fun c p' gdu hsent => ?_, ?_⟩
  · rw [hsame, workers_drain hpool] at hw
    rw [hd.packages]
    exact h.handled w p' hw
  · rw [hd.finished] at hp'
    rw [hd.packages]
    exact h.finished c p' hp'
  · rw [hd.finished, hd.packages]
    rcases sent_result hsent with hold | ⟨rfl, rfl, hanswer⟩
    · exact h.sent c p' gdu hold
    · refine ⟨ht.output_finished ?_, hanswer⟩
      rw [hout]
      exact List.mem_cons_self
  · rintro p' (hp' | ⟨c, hp'⟩)
    · rw [hd.packages, hd.received]
      refine h.requests p' (.inl (Nat.lt_of_lt_of_le hp' ?_))
      rw [hsame, ← pending_drain hpool]
      exact Nat.le_add_right _ _
    · rw [hd.finished] at hp'
      rw [hd.packages, hd.received]
      exact h.requests p' (.inr ⟨c, hp'⟩)

theorem serves_of_reach
    (h : Reach (step matchGlob cfg rep) (init cfg) (FilteredBy filters) s) : Serves filters s := by
  refine h.invariant_with (J := fun s => Traced s ∧
      ∀ c child, s.children.lookup c = some child → child.session.id = c)
    (fun s hs => ⟨traced_of_reach hs, own_of_reach hs.any⟩) (fun _ => serves_of_init)
    fun s a s' ht hi hok hs => ?_
  obtain ⟨ht, hown⟩ := ht
  cases step_serving hown hs with
  | still hstill => exact hi.still ht hstill
  | handle w response closed p pool ha hw hpool heq =>
    subst ha
    exact heq ▸ hi.handle ht hw hpool (hok p hw)
  | finish w p pool hw hpool heq => exact heq ▸ hi.finish hw hpool
  | deliver p rest pool hout hpool heq => exact heq ▸ hi.deliver ht hout hpool

/-- Filters that find everything. -/
def allFound : Filters Empty := fun _ _ _ response closed =>
  response = some (.httpResponse 200) ∧ closed = false

instance (filters : Filters ζ) [∀ session origin request response closed,
    Decidable (filters session origin request response closed)] (s : St ζ) :
    ∀ a, Decidable (FilteredBy filters s a)
  | .worker w response closed =>
    match h : s.pool.workers[w]? with
    | some (.handling p) =>
      decidable_of_iff (filters (s.packages p).session (s.packages p).origin
        (s.packages p).request response closed)
        ⟨fun hp p' hp' => by rw [h] at hp'; cases hp'; exact hp, fun hall => hall p h⟩
    | some .running => isTrue fun p hp => by rw [h] at hp; cases hp
    | some .waiting => isTrue fun p hp => by rw [h] at hp; cases hp
    | some (.handled _) => isTrue fun p hp => by rw [h] at hp; cases hp
    | none => isTrue fun p hp => by rw [h] at hp; cases hp
  | .connect _ => isTrue trivial
  | .recvGDU _ _ _ => isTrue trivial
  | .failNotify _ => isTrue trivial
  | .timeoutNotify _ => isTrue trivial
  | .retryPut => isTrue trivial
  | .socketNotify => isTrue trivial
  | .drain => isTrue trivial

instance : ∀ session origin request response closed,
    Decidable (allFound session origin request response closed) := fun _ _ _ _ _ => instDecidableAnd

def aRequest : Option (Gdu Empty) := some (.httpRequest ⟨['a'], none⟩)

def connected : St Empty := connect (.start ⟨1, 1⟩) ['p', ' ', '@']

/-- The worker takes the package, moves it and finishes it, and it is delivered. -/
def serveOne : List (Label Empty) :=
  [.worker 0 none false, .worker 0 (some (.httpResponse 200)) false, .worker 0 none false,
    .socketNotify, .drain]

def requested : St Empty :=
  (step (fun _ _ => false) ⟨1, 1⟩ ⟨[], []⟩ connected (.recvGDU 1 aRequest 0)).getD connected

def answered : St Empty :=
  (run (step (fun _ _ => false) ⟨1, 1⟩ ⟨[], []⟩) requested serveOne).getD requested

theorem reach_connected : Reach (step (fun _ _ => false) ⟨1, 1⟩ ⟨[], []⟩) (init ⟨1, 1⟩)
    (FilteredBy allFound) connected :=
  (Reach.start (init_start ⟨1, 1⟩)).next (e := .connect ['p', ' ', '@']) trivial rfl

end FrontendNet
end Metaproxy
