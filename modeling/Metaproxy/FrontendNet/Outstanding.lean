import Metaproxy.FrontendNet.Child

/-!
# FrontendNet.Outstanding

`m_no_requests` is the number of packages of a connection that are in the pool, and the connection
is neither closed nor deleted before that is 0 (`outstanding_requests`), in every run in which
`recv_GDU` answers a request itself only when no package of the connection is in the pool. It does
not look at `m_no_requests` before `delete this`, so a report asked for right behind another request
leaves a package whose connection is gone (`report_dangles`).

`Counted` is the invariant. A new package has a number that no package in the pool has, so making it
changes no count; a new connection has an id that no package has.
-/

namespace Metaproxy
namespace FrontendNet

open Lib
open Clients (Session SessionId)
open ThreadPool

variable {ζ : Type*} {matchGlob : List Char → List Char → Bool} {cfg : Config} {rep : Rep}
  {s s' : St ζ} {c : SessionId} {child child' : ZAssocChild}

/-- What may be in the log. -/
def Event.Harmless : Event ζ → Prop
  | .used _ alive => alive = true
  | .deleted _ outstanding => outstanding = 0
  | .closed _ outstanding => outstanding = 0
  | _ => True

structure Counted (s : St ζ) : Prop where
  counts : ∀ c child, s.children.lookup c = some child → child.noRequests = s.outstanding c
  own : ∀ c child, s.children.lookup c = some child → child.session.id = c
  known : ∀ c, 0 < s.outstanding c → s.alive c = true
  ids : ∀ c, s.alive c = true → c ≤ s.globalId
  /-- Numbers of packages still to be made. -/
  fresh : s.pool.pending (fun p => s.made ≤ p) = 0
  log : ∀ e ∈ s.log, e.Harmless

theorem counted_of_init (h : init cfg s) : Counted s := by
  obtain ⟨hpool, hchildren, hlog⟩ := h
  have hzero : ∀ q, s.pool.pending q = 0 := fun q => hpool ▸ pending_new
  have hnone : ∀ c, s.children.lookup c = none := fun c => hchildren ▸ AList.lookup_empty c
  refine ⟨fun c child hc => ?_, fun c child hc => ?_, fun c hpos => ?_, fun c hc => ?_, hzero _, ?_⟩
  · rw [hnone c] at hc
    cases hc
  · rw [hnone c] at hc
    cases hc
  · rw [St.outstanding, hzero] at hpos
    cases hpos
  · rw [St.alive, hnone c] at hc
    cases hc
  · rw [hlog]
    exact List.forall_mem_nil _

/-! ## Changes that keep the counts -/

theorem Counted.record (h : Counted s) {e : Event ζ} (he : e.Harmless) : Counted (s.record e) :=
  ⟨h.counts, h.own, h.known, h.ids, h.fresh, List.forall_mem_cons.mpr ⟨he, h.log⟩⟩

theorem Counted.setPool (h : Counted s) {pool : Observer PackageId}
    (hpool : ∀ q, pool.pending q = s.pool.pending q) : Counted { s with pool } where
  counts c child hc := (h.counts c child hc).trans (congrArg Nat.cast (hpool _).symm)
  own := h.own
  known c hpos := h.known c (Nat.lt_of_lt_of_eq hpos (hpool _))
  ids := h.ids
  fresh := (hpool _).trans h.fresh
  log := h.log

theorem newPackage_old {p : PackageId} (hp : p ≠ s.made) (pkg : Package ζ) :
    (s.newPackage pkg).packages p = s.packages p := Function.update_of_ne hp ..

theorem outstanding_newPackage (h : Counted s) (pkg : Package ζ) (c : SessionId) :
    (s.newPackage pkg).outstanding c = s.outstanding c := by
  refine pending_congr h.fresh fun p hp => ?_
  have hne : p ≠ s.made := by
    rintro rfl
    simp at hp
  simp only [St.isOf, newPackage_old hne]

theorem fresh_newPackage (h : Counted s) (pkg : Package ζ) :
    (s.newPackage pkg).pool.pending (fun p => (s.newPackage pkg).made ≤ p) = 0 := by
  rw [pending_eq_zero]
  intro p hp
  have hlt := of_decide_eq_false (pending_eq_zero.mp h.fresh p hp)
  exact decide_eq_false fun hle => hlt (Nat.le_of_succ_le hle)

/-- The record of one connection and the number of its packages change together. -/
theorem Counted.change (h : Counted s) (hchildren : s'.children = s.children.insert c child')
    (hid : child'.session.id = c) (hcount : child'.noRequests = s'.outstanding c)
    (hothers : ∀ c', c' ≠ c → s'.outstanding c' = s.outstanding c')
    (hglobal : s'.globalId = s.globalId) (hle : c ≤ s.globalId)
    (hfresh : s'.pool.pending (fun p => s'.made ≤ p) = 0)
    (hlog : ∀ e ∈ s'.log, e.Harmless) : Counted s' := by
  have hself : s'.children.lookup c = some child' := by
    rw [hchildren]
    exact AList.lookup_insert _
  have hne : ∀ c', c' ≠ c → s'.children.lookup c' = s.children.lookup c' := by
    intro c' hc'
    rw [hchildren]
    exact AList.lookup_insert_ne hc'
  refine ⟨fun c' x hx => ?_, fun c' x hx => ?_, fun c' hpos => ?_, fun c' hx => ?_, hfresh, hlog⟩
  · by_cases hc' : c' = c
    · subst hc'
      rw [hself] at hx
      cases hx
      exact hcount
    · rw [hne c' hc'] at hx
      rw [hothers c' hc']
      exact h.counts c' x hx
  · by_cases hc' : c' = c
    · subst hc'
      rw [hself] at hx
      cases hx
      exact hid
    · rw [hne c' hc'] at hx
      exact h.own c' x hx
  · by_cases hc' : c' = c
    · subst hc'
      rw [St.alive, hself]
      rfl
    · rw [hothers c' hc'] at hpos
      rw [St.alive, hne c' hc']
      exact h.known c' hpos
  · rw [hglobal]
    by_cases hc' : c' = c
    · rw [hc']
      exact hle
    · rw [St.alive, hne c' hc'] at hx
      exact h.ids c' hx

/-- A connection without packages may go. -/
theorem Counted.delete (h : Counted s) (hzero : s.outstanding c = 0) : Counted (s.deleteChild c) := by
  have hkeep : ∀ c' x, (s.deleteChild c).children.lookup c' = some x →
      s.children.lookup c' = some x := fun c' x hx => Table.lookup_of_erase hx
  refine ⟨fun c' x hx => h.counts c' x (hkeep c' x hx), fun c' x hx => h.own c' x (hkeep c' x hx),
    fun c' hpos => ?_, fun c' hx => ?_, h.fresh, List.forall_mem_cons.mpr ⟨hzero, h.log⟩⟩
  · have hne : c' ≠ c := by
      rintro rfl
      exact Nat.lt_irrefl 0 (hzero ▸ hpos)
    rw [St.alive]
    simp only [St.deleteChild, St.record]
    rw [AList.lookup_erase_ne hne]
    exact h.known c' hpos
  · obtain ⟨x, hx⟩ := Option.isSome_iff_exists.mp hx
    exact h.ids c' (Option.isSome_iff_exists.mpr ⟨x, hkeep c' x hx⟩)

/-! ## The steps -/

theorem connect_counted (h : Counted s) (address : List Char) : Counted (connect s address) := by
  have hnew : s.outstanding (s.globalId + 1) = 0 := by
    by_contra hne
    have hle := h.ids _ (h.known _ (Nat.pos_of_ne_zero hne))
    exact Nat.not_succ_le_self _ hle
  have hs : Counted { s with globalId := s.globalId + 1 } :=
    ⟨h.counts, h.own, h.known, fun c hc => Nat.le_succ_of_le (h.ids c hc), h.fresh, h.log⟩
  exact hs.change rfl rfl (congrArg Nat.cast hnew.symm) (fun _ _ => rfl) rfl (Nat.le_refl _)
    h.fresh h.log

theorem handle_counted (h : Counted s) {p : PackageId}
    (hp : 0 < s.outstanding (s.packages p).session.id) (response : Option (Gdu ζ))
    (closed : Bool) : Counted (handle s p response closed) := by
  have hsame : ∀ c, (handle s p response closed).isOf c = s.isOf c := by
    intro c
    funext q
    by_cases hq : q = p
    · subst hq
      simp [St.isOf, handle]
    · simp [St.isOf, handle, Function.update_of_ne hq]
  have houtstanding : ∀ c, (handle s p response closed).outstanding c = s.outstanding c := by
    intro c
    rw [St.outstanding, hsame c]
    rfl
  refine ⟨fun c x hx => ?_, h.own, fun c hpos => ?_, h.ids, h.fresh,
    List.forall_mem_cons.mpr ⟨h.known _ hp, h.log⟩⟩
  · rw [houtstanding c]
    exact h.counts c x hx
  · rw [houtstanding c] at hpos
    exact h.known c hpos

theorem work_counted (h : Counted s) {w : Nat} {response : Option (Gdu ζ)} {closed : Bool}
    (hs : work s w response closed = some s') : Counted s' := by
  obtain ⟨pool, hpool, heq⟩ := Option.map_eq_some_iff.mp hs
  have hpending : ∀ q, pool.pending q = s.pool.pending q := fun q => pending_work hpool
  split at heq
  · rename_i p hw
    cases heq
    have hpos : 0 < s.outstanding (s.packages p).session.id :=
      pending_pos_of_worker hw rfl (by simp [St.isOf])
    exact (handle_counted h hpos response closed).setPool hpending
  · rename_i p hw
    cases heq
    exact (h.record (e := .finished (s.packages p).session.id p) trivial).setPool hpending
  · cases heq
    exact h.setPool hpending

/-- A new package is put, after others of its connection have been removed. -/
theorem put_counted (h : Counted s) (hc : s.alive c = true) {pkg : Package ζ}
    {removed : List PackageId}
    (hpackages : s'.packages = (s.newPackage pkg).packages) (hmade : s'.made = s.made + 1)
    (hglobal : s'.globalId = s.globalId) (hchildren : s'.children = s.children.insert c child')
    (hid : child'.session.id = c) (hpkg : pkg.session.id = c)
    (hpool : ∀ q, s'.pool.pending q + removed.countP q =
      s.pool.pending q + if q s.made then 1 else 0)
    (hremoved : ∀ p ∈ removed, s'.isOf c p = true)
    (hcount : child'.noRequests + removed.length = s.outstanding c + 1)
    (hlog : ∀ e ∈ s'.log, e.Harmless) : Counted s' := by
  have hself : ∀ c', s'.isOf c' s.made = decide (c = c') := by
    intro c'
    simp [St.isOf, hpackages, St.newPackage, hpkg]
  have hold : ∀ c', s.pool.pending (s'.isOf c') = s.outstanding c' := by
    intro c'
    have hisOf : s'.isOf c' = (s.newPackage pkg).isOf c' := by
      funext p
      rw [St.isOf, hpackages]
      rfl
    rw [hisOf]
    exact outstanding_newPackage h pkg c'
  have hput : ∀ c', s'.outstanding c' + removed.countP (s'.isOf c') =
      s.outstanding c' + if c = c' then 1 else 0 := by
    intro c'
    have := hpool (s'.isOf c')
    simp only [hold c', hself c', decide_eq_true_eq] at this
    exact this
  have hall : removed.countP (s'.isOf c) = removed.length := List.countP_eq_length.mpr hremoved
  have hnone : ∀ c', c' ≠ c → removed.countP (s'.isOf c') = 0 := by
    intro c' hc'
    refine List.countP_eq_zero.mpr fun p hp hp' => hc' ?_
    exact (of_decide_eq_true hp').symm.trans (of_decide_eq_true (hremoved p hp))
  refine h.change hchildren hid ?_ (fun c' hc' => ?_) hglobal (h.ids c hc) ?_ hlog
  · have := hput c
    rw [hall, if_pos rfl] at this
    omega
  · have := hput c'
    rw [hnone c' hc', if_neg (Ne.symm hc')] at this
    exact this
  · have hfresh : s.pool.pending (fun p => decide (s.made + 1 ≤ p)) = 0 := fresh_newPackage h pkg
    have := hpool fun p => decide (s.made + 1 ≤ p)
    rw [hfresh, if_neg (by simp)] at this
    rw [hmade]
    omega

theorem newPackage_counted (h : Counted s) (pkg : Package ζ) : Counted (s.newPackage pkg) := by
  have hold := outstanding_newPackage h pkg
  refine ⟨fun c x hx => ?_, h.own, fun c hpos => ?_, h.ids, fresh_newPackage h pkg, h.log⟩
  · rw [hold c]
    exact h.counts c x hx
  · rw [hold c] at hpos
    exact h.known c hpos

theorem deleteChild_setChild (child : ZAssocChild) : (s.setChild c child).deleteChild c = s.deleteChild c := by
  have herase : (s.children.insert c child).erase c = s.children.erase c :=
    AList.ext (List.kerase_cons_eq rfl)
  simp only [St.deleteChild, St.setChild, herase]
  rfl

/-- An answer at once is harmless if no package is in the pool. -/
theorem recvGDU_counted (h : Counted s) (hc : s.children.lookup c = some child)
    (gdu : Option (Gdu ζ)) (conSz : Int)
    (hok : (answerAtOnce matchGlob rep child gdu conSz).isSome → s.outstanding c = 0) :
    Counted (recvGDU matchGlob cfg rep s c child gdu conSz) := by
  have halive : s.alive c = true := Option.isSome_iff_exists.mpr ⟨child, hc⟩
  unfold recvGDU
  split
  · rename_i answer hanswer
    let pkg : Package ζ := ⟨child.session, requestOrigin child gdu, gdu, none⟩
    let child' := { child with noRequests := child.noRequests + 1 }
    have hzero : (s.newPackage pkg).outstanding c = 0 := by
      rw [outstanding_newPackage h]
      exact hok (hanswer ▸ rfl)
    let received : Event ζ := .received c s.made
    let sent : Event ζ := .sentAtOnce c s.made answer
    have hreceived : Counted ((s.newPackage pkg).record received) :=
      (newPackage_counted h pkg).record trivial
    have hsent : Counted (((s.newPackage pkg).record received).record sent) :=
      hreceived.record trivial
    have hdelete := hsent.delete (c := c) hzero
    have hchange := deleteChild_setChild (s := ((s.newPackage pkg).record received).record sent)
      (c := c) child'
    exact hchange ▸ hdelete
  · have hpool : ∀ q, (s.pool.put cfg s.made).pending q + ([] : List PackageId).countP q =
        s.pool.pending q + if q s.made then 1 else 0 := fun q => pending_put _
    refine put_counted h halive rfl rfl rfl rfl (h.own c child hc) (h.own c child hc) hpool
      (List.forall_mem_nil _) ?_ (List.forall_mem_cons.mpr ⟨trivial, h.log⟩)
    simp [h.counts c child hc]

theorem putClose_counted (h : Counted s) (hc : s.children.lookup c = some child) :
    Counted (putClose cfg s c child) := by
  have halive : s.alive c = true := Option.isSome_iff_exists.mpr ⟨child, hc⟩
  let session : Session := { child.session with isClosed := true }
  let mine := (s.newPackage ⟨session, child.origin, none, none⟩).isOf c
  have hpool : ∀ q, (putClose cfg s c child).pool.pending q + (s.pool.input.filter mine).countP q =
      s.pool.pending q + if q s.made then 1 else 0 := by
    intro q
    have hclean := pending_cleanup (o := s.pool) (q := q) mine
    have hput : (putClose cfg s c child).pool.pending q =
        (s.pool.cleanup mine).pending q + if q s.made then 1 else 0 := pending_put _
    omega
  refine put_counted h halive rfl rfl rfl rfl (h.own c child hc) (h.own c child hc) hpool
    (fun p hp => (List.mem_filter.mp hp).2) ?_ ?_
  · rw [h.counts c child hc]
    exact Int.sub_add_cancel _ _
  · intro e he
    rcases List.mem_append.mp he with he | he
    · obtain ⟨p, -, rfl⟩ := List.mem_map.mp (List.mem_reverse.mp he)
      exact rfl
    · exact h.log e he

theorem failNotify_counted (h : Counted s) (hc : s.children.lookup c = some child) :
    Counted (failNotify cfg s c child) := by
  have hcounts := h.counts c child hc
  unfold failNotify
  split
  · split
    · rename_i hzero
      rw [hzero] at hcounts
      exact h.delete (Int.ofNat.inj hcounts.symm)
    · exact h
  · exact putClose_counted h hc

/-- The package that is delivered was counted, so its connection is there. -/
theorem result_counted (h : Counted s) {pool : Observer PackageId} {p : PackageId}
    (hp : p ∈ s.pool.output)
    (hpool : ∀ q, pool.pending q + (if q p then 1 else 0) = s.pool.pending q) :
    Counted (result { s with pool } p) := by
  have hpos : 0 < s.outstanding (s.packages p).session.id :=
    pending_pos_of_output hp (by simp [St.isOf])
  obtain ⟨child, hc⟩ := Option.isSome_iff_exists.mp (h.known _ hpos)
  let c := (s.packages p).session.id
  let child' := { child with noRequests := child.noRequests - 1 }
  let t := (({ s with pool } : St ζ).setChild c child').record (.used p true)
  have houtstanding : ∀ c', t.outstanding c' + (if c = c' then 1 else 0) = s.outstanding c' := by
    intro c'
    have := hpool (s.isOf c')
    simp only [St.isOf, decide_eq_true_eq] at this
    exact this
  have hcount : child'.noRequests = t.outstanding c := by
    have := houtstanding c
    rw [if_pos rfl] at this
    have hcounts := h.counts c child hc
    simp only [child']
    omega
  have ht : Counted t := by
    refine h.change rfl (h.own c child hc) hcount (fun c' hc' => ?_) rfl
      (h.ids c (h.known c hpos)) ?_ (List.forall_mem_cons.mpr ⟨rfl, h.log⟩)
    · have := houtstanding c'
      rwa [if_neg (Ne.symm hc')] at this
    · have hfresh := h.fresh
      have := hpool fun q => s.made ≤ q
      exact Nat.eq_zero_of_add_eq_zero_right (this.trans hfresh)
  let u := (s.packages p).answer.1.elim t fun gdu => t.record (.sent c p gdu)
  have hu : Counted u ∧ u.outstanding c = t.outstanding c := by
    simp only [u]
    cases (s.packages p).answer.1 with
    | none => exact ⟨ht, rfl⟩
    | some gdu => exact ⟨ht.record trivial, rfl⟩
  have hresult : result { s with pool } p =
      if child'.noRequests = 0 ∧ (s.packages p).answer.2.isClosed then
        u.record (.closed c (u.outstanding c)) else u := by
    simp only [result, c, hc]
    rfl
  rw [hresult]
  split
  · rename_i hclosed
    refine hu.1.record ?_
    rw [Event.Harmless, hu.2]
    rw [hclosed.1] at hcount
    exact Int.ofNat.inj hcount.symm
  · exact hu.1

/-! ## Runs -/

/-- A request that `recv_GDU` answers itself comes when no package of the connection is in the
pool. -/
def NoneOutstanding (matchGlob : List Char → List Char → Bool) (rep : Rep) (s : St ζ) :
    Label ζ → Prop
  | .recvGDU c gdu conSz =>
    ∀ child ∈ s.children.lookup c, (answerAtOnce matchGlob rep child gdu conSz).isSome →
      s.outstanding c = 0
  | _ => True

instance (s : St ζ) : ∀ a, Decidable (NoneOutstanding matchGlob rep s a)
  | .recvGDU c gdu conSz =>
    inferInstanceAs (Decidable (∀ child ∈ s.children.lookup c,
      (answerAtOnce matchGlob rep child gdu conSz).isSome → s.outstanding c = 0))
  | .connect _ => isTrue trivial
  | .failNotify _ => isTrue trivial
  | .timeoutNotify _ => isTrue trivial
  | .retryPut => isTrue trivial
  | .socketNotify => isTrue trivial
  | .drain => isTrue trivial
  | .worker _ _ _ => isTrue trivial

theorem counted_step {a : Label ζ} (h : Counted s) (hok : NoneOutstanding matchGlob rep s a)
    (hs : step matchGlob cfg rep s a = some s') : Counted s' := by
  cases step_happens hs with
  | connect address => exact connect_counted h address
  | recvGDU c child gdu conSz hc => exact recvGDU_counted h hc gdu conSz (hok child hc)
  | failNotify c child _ hc => exact failNotify_counted h hc
  | pool _ pool _ hpending => exact h.setPool hpending
  | deliver _ p rest pool hout hpool =>
    refine result_counted h (by simp [hout]) fun q => ?_
    have hdrain := pending_drain (q := q) hpool
    rw [hout] at hdrain
    simpa using hdrain
  | work w response closed _ hwork => exact work_counted h hwork

theorem counted_of_reach
    (h : Reach (step matchGlob cfg rep) (init cfg) (NoneOutstanding matchGlob rep) s) :
    Counted s :=
  h.invariant (fun _ => counted_of_init) fun _ _ _ hi hok hs => counted_step hi hok hs

/-- Between two steps of the event loop the counters are exact; connections went with nothing
outstanding; nothing has used one that was gone. -/
structure Safe (s : St ζ) : Prop where
  counts : ∀ c child, s.children.lookup c = some child → s.isFree = true →
    child.noRequests = s.pool.inside (s.isOf c)
  gone : ∀ c n, .deleted c n ∈ s.log ∨ .closed c n ∈ s.log → n = 0
  used : ∀ p alive, .used p alive ∈ s.log → alive = true

theorem Counted.safe (h : Counted s) : Safe s where
  counts c child hc hfree := by
    have hblocked : s.pool.blocked = [] := List.isEmpty_iff.mp hfree
    have hpending : s.outstanding c = s.pool.inside (s.isOf c) := by
      simp [St.outstanding, Observer.pending, hblocked]
    rw [h.counts c child hc, hpending]
  gone c n hmem := by
    rcases hmem with hmem | hmem
    · exact h.log _ hmem
    · exact h.log _ hmem
  used p alive hmem := h.log _ hmem

theorem deleted_of_answer (h : Counted s) {gdu : Option (Gdu ζ)} {conSz : Int}
    (hanswer : (answerAtOnce matchGlob rep child gdu conSz).isSome) :
    .deleted c (s.outstanding c) ∈ (recvGDU matchGlob cfg rep s c child gdu conSz).log := by
  obtain ⟨answer, hsome⟩ := Option.isSome_iff_exists.mp hanswer
  have hold := outstanding_newPackage h ⟨child.session, requestOrigin child gdu, gdu, none⟩ c
  rw [← hold]
  unfold recvGDU
  rw [hsome]
  exact List.mem_cons_self

/-- In every run in which `recv_GDU` answers a request itself only when no package of the connection
is in the pool, every state is safe; and from such a state a step leads to a safe state if and only
if it keeps to that. -/
theorem outstanding_requests (matchGlob : List Char → List Char → Bool) (cfg : Config) (rep : Rep)
    {s : St ζ}
    (h : Reach (step matchGlob cfg rep) (init cfg) (NoneOutstanding matchGlob rep) s) :
    Safe s ∧ ∀ a s', step matchGlob cfg rep s a = some s' →
      (Safe s' ↔ NoneOutstanding matchGlob rep s a) := by
  have hi := counted_of_reach h
  refine ⟨hi.safe, fun a s' hs => ⟨fun hsafe => ?_, fun hok => (counted_step hi hok hs).safe⟩⟩
  cases a with
  | recvGDU c gdu conSz =>
    intro child hc hanswer
    simp only [step] at hs
    split at hs
    · obtain ⟨x, hx, rfl⟩ := Option.map_eq_some_iff.mp hs
      rw [Option.mem_def.mp hc] at hx
      cases hx
      exact hsafe.gone c _ (.inl (deleted_of_answer hi hanswer))
    · cases hs
  | _ => trivial

/-! ### A report is asked for -/

def reportAt : Rep := ⟨['/', 's'], []⟩

def get (path : List Char) : Option (Gdu Empty) := some (.httpRequest ⟨path, none⟩)

/-- The report after the response to another request. -/
def reportLast : List (Label Empty) :=
  [.connect ['p', ' ', '@'], .recvGDU 1 (get ['/']) 0, .worker 0 (some (.httpResponse 200)) false,
    .worker 0 (some (.httpResponse 200)) false, .worker 0 none false, .socketNotify, .drain, .drain,
    .recvGDU 1 (get ['/', 's']) 0]

/-- The report right behind another request, which a worker has before the event loop goes on. -/
def reportBehind : List (Label Empty) :=
  [.connect ['p', ' ', '@'], .recvGDU 1 (get ['/']) 0, .recvGDU 1 (get ['/', 's']) 0,
    .worker 0 none false, .worker 0 (some (.httpResponse 200)) false]

theorem outstanding_requests_report :
    ∃ s : St Empty, .deleted 1 0 ∈ s.log ∧ Safe s := by
  have hok : RunOk (step (fun _ _ => false) ⟨1, 1⟩ reportAt)
      (NoneOutstanding (fun _ _ => false) reportAt) (.start ⟨1, 1⟩) reportLast := by
    decide
  have hrun : (run (step (fun _ _ => false) ⟨1, 1⟩ reportAt) (.start ⟨1, 1⟩) reportLast).any
      (fun s => .deleted 1 0 ∈ s.log) := by
    decide
  obtain ⟨s, hr, hs⟩ := Reach.exists_of_run (init_start ⟨1, 1⟩) hok hrun
  exact ⟨s, of_decide_eq_true hs, (outstanding_requests _ _ _ hr).1⟩

/-- The connection is deleted with a package in the pool, which a worker then handles. -/
theorem report_dangles :
    ¬ ∀ s : St Empty, Reach (step (fun _ _ => false) ⟨1, 1⟩ reportAt) (init ⟨1, 1⟩) Any s →
      Safe s := by
  intro h
  have hrun : (run (step (fun _ _ => false) ⟨1, 1⟩ reportAt) (.start ⟨1, 1⟩) reportBehind).any
      (fun s => .used 0 false ∈ s.log) := by
    decide
  obtain ⟨s, hr, hs⟩ := Reach.exists_of_run (init_start ⟨1, 1⟩) (runOk_any _ _) hrun
  cases (h s hr).used 0 false (of_decide_eq_true hs)

end FrontendNet
end Metaproxy
