import Metaproxy.FrontendNet.Served

/-!
# FrontendNet.Requests

No request of an open connection is lost: it is in the pool, or it has been through the filters and
its answer has been sent (`nothing_lost`). What is removed from the pool unanswered is removed when
the connection closes, and is its own.
-/

namespace Metaproxy
namespace FrontendNet

open Lib
open Clients (Session SessionId)
open ThreadPool

variable {ζ : Type*} {filters : Filters ζ} {matchGlob : List Char → List Char → Bool} {cfg : Config}
  {rep : Rep} {s s' : St ζ} {c : SessionId} {child : ZAssocChild}

/-! ## What becomes of a request -/

/-- The package is in the pool, its answer has been sent, or there is none. -/
def St.Accounted (s : St ζ) (c : SessionId) (p : PackageId) : Prop :=
  s.InPool p ∨ p ∈ s.responses c ∨ p ∈ s.finished c ∧ (s.packages p).answer.1 = none

theorem St.Accounted.mono {p : PackageId} (h : s.Accounted c p)
    (hpool : s.InPool p → s'.InPool p) (hresponses : p ∈ s.responses c → p ∈ s'.responses c)
    (hfinished : p ∈ s.finished c → p ∈ s'.finished c) (hpackage : s'.packages p = s.packages p) :
    s'.Accounted c p := by
  rcases h with h | h | ⟨h, hanswer⟩
  · exact .inl (hpool h)
  · exact .inr (.inl (hresponses h))
  · refine .inr (.inr ⟨hfinished h, ?_⟩)
    rw [hpackage]
    exact hanswer

structure Kept (s : St ζ) : Prop where
  ids : ∀ c, s.alive c = true ∨ s.received c ≠ [] → c ≤ s.globalId
  own : ∀ c, ∀ p ∈ s.received c, (s.packages p).session.id = c
  kept : ∀ c child, s.children.lookup c = some child → child.session.isClosed = false →
    ∀ p ∈ s.received c, s.Accounted c p

theorem kept_of_init (h : init cfg s) : Kept s := by
  obtain ⟨-, hchildren, hlog⟩ := h
  have hreceived : ∀ c, s.received c = [] := fun c => by rw [St.received, hlog]; rfl
  refine ⟨fun c hc => ?_, fun c p hp => ?_, fun c child hc => ?_⟩
  · rcases hc with hc | hc
    · rw [St.alive, hchildren, AList.lookup_empty] at hc
      cases hc
    · exact absurd (hreceived c) hc
  · rw [hreceived] at hp
    cases hp
  · rw [hchildren, AList.lookup_empty] at hc
    cases hc

/-- Children that are open have been so, unless they are new, and the requests are accounted for. -/
theorem Kept.change (h : Kept s) (ht : Traced s) (hglobal : s.globalId = s'.globalId)
    (hreceived : ∀ c, s'.received c = s.received c)
    (hpackages : ∀ p, p < s.made → (s'.packages p).session.id = (s.packages p).session.id)
    (hchildren : ∀ c child', s'.children.lookup c = some child' → ∃ child,
      s.children.lookup c = some child ∧
        (child'.session.isClosed = false → child.session.isClosed = false ∧
          ∀ p ∈ s.received c, s.Accounted c p → s'.Accounted c p)) : Kept s' := by
  refine ⟨fun c hc => ?_, fun c p hp => ?_, fun c child' hc hopen p hp => ?_⟩
  · rw [← hglobal]
    refine h.ids c (hc.imp (fun hc => ?_) fun hc => ?_)
    · obtain ⟨child', hchild'⟩ := Option.isSome_iff_exists.mp hc
      obtain ⟨child, hchild, -⟩ := hchildren c child' hchild'
      exact Option.isSome_iff_exists.mpr ⟨child, hchild⟩
    · rwa [← hreceived c]
  · rw [hreceived] at hp
    rw [hpackages p (ht.receivedMade c p hp)]
    exact h.own c p hp
  · rw [hreceived] at hp
    obtain ⟨child, hchild, hkeep⟩ := hchildren c child' hc
    obtain ⟨hwas, haccounted⟩ := hkeep hopen
    exact haccounted p hp (h.kept c child hchild hwas p hp)

theorem Kept.connect (h : Kept s) (address : List Char) :
    Kept (FrontendNet.connect s address) := by
  refine ⟨fun c hc => ?_, h.own, fun c child hc hopen p hp => ?_⟩
  · have hle : c ≤ s.globalId + 1 := by
      by_cases hnew : c = s.globalId + 1
      · exact Nat.le_of_eq hnew
      · refine Nat.le_succ_of_le (h.ids c (hc.imp_left fun hc => ?_))
        rw [St.alive] at hc ⊢
        rwa [← AList.lookup_insert_ne hnew]
    exact hle
  · rcases Table.lookup_insert_iff.mp hc with ⟨rfl, -⟩ | ⟨-, hold⟩
    · have hle := h.ids _ (.inr (List.ne_nil_of_mem hp))
      exact absurd hle (Nat.not_succ_le_self _)
    · exact h.kept c child hold hopen p hp

theorem received_recvGDU (gdu : Option (Gdu ζ)) (conSz : Int) (c' : SessionId) :
    (recvGDU matchGlob cfg rep s c child gdu conSz).received c' =
      if c = c' then s.received c' ++ [s.made] else s.received c' := by
  unfold recvGDU
  split
  · exact received_record (s := s) c c' s.made
  · exact received_record (s := s) c c' s.made

theorem inPool_put {p p' : PackageId} (h : s.InPool p) : (s.put cfg p').InPool p := by
  have hput : (s.put cfg p').pool.pending (fun q => q = p) =
      s.pool.pending (fun q => q = p) + if decide (p' = p) then 1 else 0 := pending_put p'
  rw [St.InPool, hput]
  exact Nat.lt_of_lt_of_le h (Nat.le_add_right _ _)

theorem inPool_put_self (s : St ζ) (p : PackageId) : (s.put cfg p).InPool p := by
  have hput : (s.put cfg p).pool.pending (fun q => q = p) =
      s.pool.pending (fun q => q = p) + if decide (p = p) then 1 else 0 := pending_put p
  rw [St.InPool, hput, if_pos (decide_eq_true rfl)]
  exact Nat.succ_pos _

/-- A connection is as before, and has got the request if it is still there. -/
theorem lookup_recvGDU (hc : s.children.lookup c = some child) {gdu : Option (Gdu ζ)} {conSz : Int}
    {c' : SessionId} {x : ZAssocChild}
    (hx : (recvGDU matchGlob cfg rep s c child gdu conSz).children.lookup c' = some x) :
    (∃ old, s.children.lookup c' = some old ∧ x.session = old.session) ∧
      (c = c' → (recvGDU matchGlob cfg rep s c child gdu conSz).InPool s.made) := by
  unfold recvGDU at hx ⊢
  cases hanswer : answerAtOnce matchGlob rep child gdu conSz with
  | some answer =>
    simp only [hanswer] at hx ⊢
    obtain ⟨hne, hinsert⟩ := Table.lookup_erase_iff.mp hx
    have hold := (Table.lookup_insert_iff.mp hinsert).resolve_left fun h => hne h.1
    exact ⟨⟨x, hold.2, rfl⟩, fun h => absurd h.symm hne⟩
  | none =>
    simp only [hanswer] at hx ⊢
    refine ⟨?_, fun _ => inPool_put_self _ _⟩
    rcases Table.lookup_insert_iff.mp hx with ⟨rfl, rfl⟩ | ⟨-, hold⟩
    · exact ⟨child, hc, rfl⟩
    · exact ⟨x, hold, rfl⟩

theorem inPool_recvGDU {p : PackageId} (gdu : Option (Gdu ζ)) (conSz : Int) (h : s.InPool p) :
    (recvGDU matchGlob cfg rep s c child gdu conSz).InPool p := by
  unfold recvGDU
  split
  · exact h
  · exact inPool_put h

theorem Kept.recvGDU (h : Kept s) (ht : Traced s) (hid : child.session.id = c)
    (hc : s.children.lookup c = some child) (gdu : Option (Gdu ζ)) (conSz : Int) :
    Kept (recvGDU matchGlob cfg rep s c child gdu conSz) := by
  have hstill : Still s (FrontendNet.recvGDU matchGlob cfg rep s c child gdu conSz) :=
    still_recvGDU hid gdu conSz
  have hreceived : ∀ c', (FrontendNet.recvGDU matchGlob cfg rep s c child gdu conSz).received c' =
      if c = c' then s.received c' ++ [s.made] else s.received c' := received_recvGDU gdu conSz
  have hmem {c' : SessionId} {p : PackageId}
      (hp : p ∈ (FrontendNet.recvGDU matchGlob cfg rep s c child gdu conSz).received c') :
      p ∈ s.received c' ∨ p = s.made ∧ c = c' := by
    rw [hreceived] at hp
    split at hp
    · rename_i heq
      exact (List.mem_append.mp hp).imp_right fun hp => ⟨List.mem_singleton.mp hp, heq⟩
    · exact .inl hp
  have hglobal : (FrontendNet.recvGDU matchGlob cfg rep s c child gdu conSz).globalId =
      s.globalId := by
    unfold FrontendNet.recvGDU
    split <;> rfl
  have hle : c ≤ s.globalId := h.ids c (.inl (Option.isSome_iff_exists.mpr ⟨child, hc⟩))
  refine ⟨fun c' hc' => ?_, fun c' p hp => ?_, fun c' x hx hopen p hp => ?_⟩
  · rw [hglobal]
    rcases hc' with hc' | hc'
    · obtain ⟨x, hx⟩ := Option.isSome_iff_exists.mp hc'
      obtain ⟨⟨old, hold, -⟩, -⟩ := lookup_recvGDU hc hx
      exact h.ids c' (.inl (Option.isSome_iff_exists.mpr ⟨old, hold⟩))
    · obtain ⟨p, hp⟩ := List.exists_mem_of_ne_nil _ hc'
      rcases hmem hp with hp | ⟨-, rfl⟩
      · exact h.ids c' (.inr (List.ne_nil_of_mem hp))
      · exact hle
  · rcases hmem hp with hp | ⟨rfl, rfl⟩
    · rw [hstill.packages p (ht.receivedMade c' p hp)]
      exact h.own c' p hp
    · unfold FrontendNet.recvGDU
      split
      · simp [St.deleteChild, St.record, St.newPackage, St.setChild, hid]
      · simp [St.put, St.record, St.newPackage, St.setChild, hid]
  · obtain ⟨⟨old, hold, hsession⟩, hnew⟩ := lookup_recvGDU hc hx
    rcases hmem hp with hp | ⟨rfl, heq⟩
    · rw [hsession] at hopen
      refine (h.kept c' old hold hopen p hp).mono (inPool_recvGDU gdu conSz) (fun hp => ?_)
        (fun hp => ?_) (hstill.packages p (ht.receivedMade c' p hp))
      · rwa [hstill.responses]
      · rwa [hstill.finished]
    · exact .inl (hnew heq)

/-- What is removed when a connection closes is its own. -/
theorem inPool_putClose {p : PackageId} (hp : p < s.made)
    (hother : (s.packages p).session.id ≠ c) (h : s.InPool p) :
    (putClose cfg s c child).InPool p := by
  let pkg : Package ζ := ⟨{ child.session with isClosed := true }, child.origin, none, none⟩
  have hclean := pending_cleanup (o := s.pool) (q := fun q => q = p) ((s.newPackage pkg).isOf c)
  have hkept : (s.pool.input.filter ((s.newPackage pkg).isOf c)).countP (fun q => q = p) = 0 := by
    refine List.countP_eq_zero.mpr fun q hq hsame => hother ?_
    cases of_decide_eq_true hsame
    have hown := of_decide_eq_true (List.mem_filter.mp hq).2
    rwa [newPackage_packages hp] at hown
  have hput : (putClose cfg s c child).pool.pending (fun q => q = p) =
      (s.pool.cleanup ((s.newPackage pkg).isOf c)).pending (fun q => q = p) +
        if decide (s.made = p) then 1 else 0 := pending_put s.made
  have hpos : 0 < s.pool.pending (fun q => q = p) := h
  rw [St.InPool, hput]
  omega

theorem received_putClose (c' : SessionId) :
    (putClose cfg s c child).received c' = s.received c' := by
  have hnone (removed : List PackageId) :
      (removed.map fun p => (Event.used p true : Event ζ)).reverse.filterMap
        (Event.receivedOf c') = [] := by
    refine List.filterMap_eq_nil_iff.mpr fun e he => ?_
    obtain ⟨p, -, rfl⟩ := List.mem_map.mp (List.mem_reverse.mp he)
    rfl
  show ((_ ++ s.log).filterMap _).reverse = _
  rw [List.filterMap_append, hnone, List.nil_append]
  rfl

theorem Kept.failNotify (h : Kept s) (ht : Traced s) (hc : s.children.lookup c = some child) :
    Kept (failNotify cfg s c child) := by
  have hstill : Still s (FrontendNet.failNotify cfg s c child) := still_failNotify s c child
  have hreceived (c' : SessionId) :
      (FrontendNet.failNotify cfg s c child).received c' = s.received c' := by
    unfold FrontendNet.failNotify
    split
    · split <;> rfl
    · exact received_putClose c'
  have haccounted {c' : SessionId} {p : PackageId} (hp : p ∈ s.received c')
      (hpool : s.InPool p → (FrontendNet.failNotify cfg s c child).InPool p)
      (h : s.Accounted c' p) : (FrontendNet.failNotify cfg s c child).Accounted c' p := by
    refine h.mono hpool (fun hp => ?_) (fun hp => ?_)
      (hstill.packages p (ht.receivedMade c' p hp))
    · rwa [hstill.responses]
    · rwa [hstill.finished]
  refine h.change ht ?_ hreceived (fun p hp => by rw [hstill.packages p hp]) ?_
  · unfold FrontendNet.failNotify
    split
    · split <;> rfl
    · rfl
  · intro c' child' hchild'
    by_cases hclosed : child.session.isClosed = true
    · by_cases hzero : child.noRequests = 0
      · have heq : FrontendNet.failNotify cfg s c child = s.deleteChild c := by
          rw [FrontendNet.failNotify, if_pos hclosed, if_pos hzero]
        rw [heq] at hchild' haccounted ⊢
        exact ⟨child', Table.lookup_of_erase hchild', fun hopen =>
          ⟨hopen, fun p hp => haccounted hp id⟩⟩
      · have heq : FrontendNet.failNotify cfg s c child = s := by
          rw [FrontendNet.failNotify, if_pos hclosed, if_neg hzero]
        rw [heq] at hchild' haccounted ⊢
        exact ⟨child', hchild', fun hopen => ⟨hopen, fun p hp => haccounted hp id⟩⟩
    · have heq : FrontendNet.failNotify cfg s c child = putClose cfg s c child := by
        rw [FrontendNet.failNotify, if_neg hclosed]
      rw [heq] at hchild' haccounted ⊢
      rcases Table.lookup_insert_iff.mp hchild' with ⟨rfl, rfl⟩ | ⟨hne, hold⟩
      · exact ⟨child, hc, fun hopen => by cases hopen⟩
      · refine ⟨child', hold, fun hopen => ⟨hopen, fun p hp => haccounted hp ?_⟩⟩
        exact inPool_putClose (ht.receivedMade c' p hp) (h.own c' p hp ▸ hne)

theorem Kept.setPool (h : Kept s) (ht : Traced s) {pool : Observer PackageId}
    (hpool : ∀ q, pool.pending q = s.pool.pending q) : Kept { s with pool } := by
  refine h.change ht rfl (fun _ => rfl) (fun _ _ => rfl) fun c child hc => ⟨child, hc, fun hopen =>
    ⟨hopen, fun p hp haccounted => haccounted.mono (fun hold => ?_) id id rfl⟩⟩
  have hpos : 0 < s.pool.pending (fun q => q = p) := hold
  rwa [← hpool] at hpos

/-- A package that a worker has is in the pool, and its answer does not matter yet. -/
theorem Kept.handle (h : Kept s) (ht : Traced s) {w : Nat} {p : PackageId}
    {pool : Observer PackageId} (hw : s.pool.workers[w]? = some (.handling p))
    (hpool : s.pool.work w = some pool) (response : Option (Gdu ζ)) (closed : Bool) :
    Kept { handle s p response closed with pool } := by
  have hold {p' : PackageId} (hp : s.InPool p') : 0 < pool.pending fun q => q = p' := by
    rwa [pending_work hpool]
  refine h.change ht rfl (fun _ => rfl) (fun p' _ => ?_) fun c child hc => ⟨child, hc, fun hopen =>
    ⟨hopen, fun p' hp haccounted => ?_⟩⟩
  · by_cases hp : p' = p
    · subst hp
      simp [FrontendNet.handle]
    · simp [FrontendNet.handle, Function.update_of_ne hp]
  · by_cases hp : p' = p
    · subst hp
      exact .inl (hold (inPool_of_worker hw rfl))
    · exact haccounted.mono hold id id (Function.update_of_ne hp ..)

theorem Kept.finish (h : Kept s) (ht : Traced s) {w : Nat} {p : PackageId}
    {pool : Observer PackageId} (hpool : s.pool.work w = some pool) : Kept (s.push p pool) := by
  refine h.change ht rfl (fun _ => rfl) (fun _ _ => rfl) fun c child hc => ⟨child, hc, fun hopen =>
    ⟨hopen, fun p' hp haccounted => haccounted.mono (fun hold => ?_) id (fun hfinished => ?_) rfl⟩⟩
  · have hpos : 0 < s.pool.pending (fun q => q = p') := hold
    rwa [← pending_work hpool] at hpos
  · rw [finished_push]
    split
    · exact List.mem_append_left _ hfinished
    · exact hfinished

theorem mem_responses {p : PackageId} : p ∈ s.responses c ↔ ∃ gdu, .sent c p gdu ∈ s.log := by
  rw [St.responses, List.mem_reverse, List.mem_filterMap]
  constructor
  · rintro ⟨e, he, hp⟩
    cases e with
    | sent c' p' gdu =>
      rw [Event.responseOf] at hp
      split at hp
      · rename_i hc
        cases hp
        exact ⟨gdu, hc ▸ he⟩
      · cases hp
    | received c' p' => cases hp
    | finished c' p' => cases hp
    | sentAtOnce c' p' gdu => cases hp
    | used p' alive => cases hp
    | deleted c' outstanding => cases hp
    | closed c' outstanding => cases hp
  · rintro ⟨gdu, hsent⟩
    exact ⟨.sent c p gdu, hsent, if_pos rfl⟩

/-- The answer is sent if the connection is still there. -/
theorem result_sends {p : PackageId} {gdu : Gdu ζ}
    (hchild : s.children.lookup (s.packages p).session.id = some child)
    (hanswer : (s.packages p).answer.1 = some gdu) :
    p ∈ (result s p).responses (s.packages p).session.id := by
  refine mem_responses.mpr ⟨gdu, ?_⟩
  rcases ha : (s.packages p).answer with ⟨answer, session⟩
  rw [ha] at hanswer
  cases hanswer
  unfold result
  simp only [ha, hchild, Option.elim_some]
  split
  · exact List.mem_cons_of_mem _ List.mem_cons_self
  · exact List.mem_cons_self

theorem result_children {p : PackageId} {x : ZAssocChild}
    (hx : (result s p).children.lookup c = some x) :
    ∃ old, s.children.lookup c = some old ∧ x.session = old.session := by
  rcases ha : (s.packages p).answer with ⟨answer, session⟩
  unfold result at hx
  simp only [ha] at hx
  split at hx
  · exact ⟨x, hx, rfl⟩
  · rename_i child hchild
    have hinsert : (s.children.insert (s.packages p).session.id
        { child with noRequests := child.noRequests - 1 }).lookup c = some x := by
      cases answer with
      | none =>
        simp only [Option.elim_none] at hx
        split at hx
        · exact hx
        · exact hx
      | some answer =>
        simp only [Option.elim_some] at hx
        split at hx
        · exact hx
        · exact hx
    rcases Table.lookup_insert_iff.mp hinsert with ⟨rfl, rfl⟩ | ⟨-, hold⟩
    · exact ⟨child, hchild, rfl⟩
    · exact ⟨x, hold, rfl⟩

theorem result_globalId (s : St ζ) (p : PackageId) : (result s p).globalId = s.globalId := by
  rcases ha : (s.packages p).answer with ⟨answer, session⟩
  unfold result
  simp only [ha]
  split
  · rfl
  · cases answer with
    | none =>
      simp only [Option.elim_none]
      split <;> rfl
    | some answer =>
      simp only [Option.elim_some]
      split <;> rfl

/-- The package that is delivered leaves the pool, and is answered. -/
theorem Kept.deliver (h : Kept s) (ht : Traced s) {p : PackageId} {rest : List PackageId}
    {pool : Observer PackageId} (hout : s.pool.output = p :: rest)
    (hpool : s.pool.drain = some pool) : Kept (result { s with pool } p) := by
  obtain ⟨hd, hsame⟩ := result_delivers { s with pool } p
  have hp : p ∈ s.pool.output := by
    rw [hout]
    exact List.mem_cons_self
  refine h.change ht (result_globalId { s with pool } p).symm hd.received (fun p' _ => by rw [hd.packages])
    fun c x hx => ?_
  obtain ⟨old, hold, hsession⟩ := result_children hx
  refine ⟨old, hold, fun hopen => ⟨hsession ▸ hopen, fun p' hp' haccounted => ?_⟩⟩
  by_cases hself : p' = p
  · subst hself
    have hid := h.own c p' hp'
    cases hanswer : (s.packages p').answer.1 with
    | none =>
      refine .inr (.inr ⟨?_, ?_⟩)
      · rw [hd.finished]
        exact hid ▸ ht.output_finished hp
      · rw [hd.packages]
        exact hanswer
    | some gdu =>
      have hsends := result_sends (s := { s with pool }) (hid ▸ hold) hanswer
      rw [← hid]
      exact .inr (.inl hsends)
  · refine haccounted.mono (fun hpos => ?_) (fun hresponse => ?_) (fun hfinished => ?_) ?_
    · have hdrain := pending_drain (q := fun q => q = p') hpool
      have hnot : (s.pool.output.take 1).countP (fun q => q = p') = 0 := by
        rw [hout]
        simp [Ne.symm hself]
      have hstays : pool.pending (fun q => q = p') = s.pool.pending (fun q => q = p') := by omega
      have hpos' : 0 < pool.pending (fun q => q = p') := hstays ▸ hpos
      rwa [St.InPool, hsame]
    · rcases hd.responses c with heq | ⟨heq, -⟩
      · rw [heq]
        exact hresponse
      · rw [heq]
        exact List.mem_append_left _ hresponse
    · rw [hd.finished]
      exact hfinished
    · rw [hd.packages]

theorem kept_of_reach (h : Reach (step matchGlob cfg rep) (init cfg) Any s) : Kept s := by
  refine h.invariant_with (J := fun s => Traced s ∧
      ∀ c child, s.children.lookup c = some child → child.session.id = c)
    (fun s hs => ⟨traced_of_reach hs, own_of_reach hs⟩) (fun _ => kept_of_init)
    fun s a s' ht hi _ hs => ?_
  obtain ⟨ht, hown⟩ := ht
  cases step_happens hs with
  | connect address => exact hi.connect address
  | recvGDU c child gdu conSz hc => exact hi.recvGDU ht (hown c child hc) hc gdu conSz
  | failNotify c child _ hc => exact hi.failNotify ht hc
  | pool _ pool _ hpending => exact hi.setPool ht hpending
  | deliver _ p rest pool hout hpool => exact hi.deliver ht hout hpool
  | work w response closed _ hwork =>
    obtain ⟨pool, hpool, heq⟩ := Option.map_eq_some_iff.mp hwork
    split at heq
    · rename_i p hw
      exact heq ▸ hi.handle ht hw hpool response closed
    · exact heq ▸ hi.finish ht hpool
    · exact heq ▸ hi.setPool ht fun q => pending_work hpool

/-- The request of a package stays. -/
theorem request_step (hown : ∀ c child, s.children.lookup c = some child → child.session.id = c)
    {a : Label ζ} (hs : step matchGlob cfg rep s a = some s') {p : PackageId} (hp : p < s.made) :
    p < s'.made ∧ (s'.packages p).request = (s.packages p).request := by
  cases step_serving hown hs with
  | still hstill => exact ⟨Nat.lt_of_lt_of_le hp hstill.made, by rw [hstill.packages p hp]⟩
  | handle w response closed p' pool ha hw hpool heq =>
    subst heq
    refine ⟨hp, ?_⟩
    by_cases hself : p = p'
    · subst hself
      simp [handle]
    · simp [handle, Function.update_of_ne hself]
  | finish w p' pool hw hpool heq =>
    subst heq
    exact ⟨hp, rfl⟩
  | deliver p' rest pool hout hpool heq =>
    subst heq
    obtain ⟨hd, -⟩ := result_delivers { s with pool } p'
    rw [hd.made, hd.packages]
    exact ⟨hp, rfl⟩

theorem request_run (h : Reach (step matchGlob cfg rep) (init cfg) Any s) {es : List (Label ζ)}
    (hrun : run (step matchGlob cfg rep) s es = some s') {p : PackageId} (hp : p < s.made) :
    (s'.packages p).request = (s.packages p).request := by
  induction es generalizing s with
  | nil =>
    cases hrun
    rfl
  | cons a es ih =>
    obtain ⟨s₁, hs, hrest⟩ := Option.bind_eq_some_iff.mp hrun
    obtain ⟨hmade, hrequest⟩ := request_step (own_of_reach h) hs hp
    exact (ih (h.next trivial hs) hrest hmade).trans hrequest

theorem received_run (h : Reach (step matchGlob cfg rep) (init cfg) Any s) {es : List (Label ζ)}
    (hrun : run (step matchGlob cfg rep) s es = some s') {p : PackageId} (hp : p ∈ s.received c) :
    p ∈ s'.received c := by
  induction es generalizing s with
  | nil =>
    cases hrun
    exact hp
  | cons a es ih =>
    obtain ⟨s₁, hs, hrest⟩ := Option.bind_eq_some_iff.mp hrun
    refine ih (h.next trivial hs) hrest ?_
    cases step_serving (own_of_reach h) hs with
    | still hstill => exact hstill.toQuiet.received_mono hp
    | handle w response closed p' pool ha hw hpool heq =>
      subst heq
      exact hp
    | finish w p' pool hw hpool heq =>
      subst heq
      exact hp
    | deliver p' rest pool hout hpool heq =>
      subst heq
      obtain ⟨hd, -⟩ := result_delivers { s with pool } p'
      rwa [hd.received]

theorem recvGDU_request {gdu : Option (Gdu ζ)} {conSz : Int}
    (hs : step matchGlob cfg rep s (.recvGDU c gdu conSz) = some s') :
    s.made < s'.made ∧ s.made ∈ s'.received c ∧ (s'.packages s.made).request = gdu := by
  simp only [step] at hs
  split at hs
  · obtain ⟨child, hc, rfl⟩ := Option.map_eq_some_iff.mp hs
    have hreceived : s.made ∈ (recvGDU matchGlob cfg rep s c child gdu conSz).received c := by
      rw [received_recvGDU, if_pos rfl]
      exact List.mem_append_right _ (List.mem_singleton_self _)
    refine ⟨?_, hreceived, ?_⟩
    · unfold recvGDU
      split <;> exact Nat.lt_succ_self _
    · unfold recvGDU
      split
      · simp [St.deleteChild, St.record, St.newPackage, St.setChild]
      · simp [St.put, St.record, St.newPackage, St.setChild]
  · cases hs

/-- A request that is received in any run, and any continuation of the run in which its connection
stays open: the request is in the pool, or it has been through the filters, and then its answer has
been sent on the connection if there is one. -/
theorem nothing_lost {s₀ s₁ : St ζ}
    (h : Reach (step matchGlob cfg rep) (init cfg) (FilteredBy filters) s₀)
    {gdu : Option (Gdu ζ)} {conSz : Int}
    (hreceived : step matchGlob cfg rep s₀ (.recvGDU c gdu conSz) = some s₁)
    {es : List (Label ζ)} (hok : RunOk (step matchGlob cfg rep) (FilteredBy filters) s₁ es)
    (hrun : run (step matchGlob cfg rep) s₁ es = some s)
    (hchild : s.children.lookup c = some child) (hopen : child.session.isClosed = false) :
    (s.packages s₀.made).request = gdu ∧
      (s.InPool s₀.made ∨ (s.packages s₀.made).Filtered filters ∧
        ∀ answer, (s.packages s₀.made).answer.1 = some answer →
          .sent c s₀.made answer ∈ s.log) := by
  have hfree : FilteredBy filters s₀ (.recvGDU c gdu conSz) := trivial
  have h₁ := h.next hfree hreceived
  have hreach := h₁.of_run hok hrun
  obtain ⟨hmade, hmem, hrequest⟩ := recvGDU_request hreceived
  refine ⟨(request_run h₁.any hrun hmade).trans hrequest, ?_⟩
  have hserves := serves_of_reach hreach
  have hmem' := received_run h₁.any hrun hmem
  rcases (kept_of_reach hreach.any).kept c child hchild hopen _ hmem' with
    hpool | hresponse | ⟨hfinished, hnone⟩
  · exact .inl hpool
  · obtain ⟨gdu', hsent⟩ := mem_responses.mp hresponse
    obtain ⟨hfinished, hanswer⟩ := hserves.sent c _ gdu' hsent
    refine .inr ⟨(hserves.finished c _ hfinished).2, fun answer hsome => ?_⟩
    cases hanswer.symm.trans hsome
    exact hsent
  · refine .inr ⟨(hserves.finished c _ hfinished).2, fun answer hsome => ?_⟩
    cases hnone.symm.trans hsome

theorem nothing_lost_answered :
    (answered.packages 0).request = aRequest ∧
      (answered.InPool 0 ∨ (answered.packages 0).Filtered allFound ∧
        ∀ answer, (answered.packages 0).answer.1 = some answer →
          .sent 1 0 answer ∈ answered.log) := by
  have hreceived : step (fun _ _ => false) ⟨1, 1⟩ ⟨[], []⟩ connected (.recvGDU 1 aRequest 0) =
      some requested := rfl
  have hok : RunOk (step (fun _ _ => false) ⟨1, 1⟩ ⟨[], []⟩) (FilteredBy allFound) requested
      serveOne := by
    decide
  have hrun : run (step (fun _ _ => false) ⟨1, 1⟩ ⟨[], []⟩) requested serveOne =
      some answered := rfl
  have hchild : (answered.children.lookup 1).any fun child => !child.session.isClosed := by
    decide
  cases hlookup : answered.children.lookup 1 with
  | none =>
    rw [hlookup] at hchild
    cases hchild
  | some child =>
    rw [hlookup, Option.any_some, Bool.not_eq_true'] at hchild
    exact nothing_lost reach_connected hreceived hok hrun hlookup hchild

end FrontendNet
end Metaproxy
