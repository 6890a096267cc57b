import Metaproxy.Clients.Rep

/-!
# Clients.Exclusion

Packages of one session do not meet in a filter (`exclusion`). The invariant is `Exclusive`: an
object that some package is inside of is in use, is the one stored for the package's session, and
has no second package. A package only gets in by an object that is not in use or is new, and only
the package inside of the stored object can free or drop it.
-/

namespace Metaproxy
namespace Clients

open Lib

variable {φ α ε : Type*} {F : Filter φ α ε} {s s' : St φ ε} {p : Nat} {session : Session}

structure Exclusive (s : St φ ε) : Prop where
  made : ∀ i ptr, s.clients.lookup i = some ptr → ptr < s.made
  inj : ∀ i j ptr, s.clients.lookup i = some ptr → s.clients.lookup j = some ptr → i = j
  /-- The object of a package is stored for its session and is in use. -/
  stored : ∀ p ptr, (s.packages p).pc = .inside ptr →
    s.clients.lookup (s.packages p).session.id = some ptr ∧ (s.frontends ptr).inUse = true
  alone : ∀ p q ptr, (s.packages p).pc = .inside ptr → (s.packages q).pc = .inside ptr → p = q
  erased : ∀ i ptr, .erased i ptr ∈ s.log → ptr < s.made ∧ ∀ j, s.clients.lookup j ≠ some ptr

theorem exclusive_of_init (h : init s) : Exclusive s := by
  obtain ⟨hclients, -, hpackages, hlog⟩ := h
  have hnone : ∀ i ptr, s.clients.lookup i ≠ some ptr := by
    intro i ptr
    rw [hclients]
    simp
  refine ⟨fun i ptr hi => absurd hi (hnone i ptr), fun i j ptr hi => absurd hi (hnone i ptr),
    fun p ptr hp => ?_, fun p q ptr hp => ?_, fun i ptr hmem => ?_⟩
  · rw [hpackages] at hp
    cases hp
  · rw [hpackages] at hp
    cases hp
  · rw [hlog] at hmem
    cases hmem

/-! ## `get_frontend` -/

/-- A package that is not inside may wait, or be anywhere outside. -/
theorem Exclusive.away (h : Exclusive s) {pc : Pc} (hpc : ∀ ptr, pc ≠ .inside ptr) :
    Exclusive (s.setPackage p ⟨session, pc⟩) := by
  have hin : ∀ q ptr, ((s.setPackage p ⟨session, pc⟩).packages q).pc = .inside ptr →
      q ≠ p ∧ (s.setPackage p ⟨session, pc⟩).packages q = s.packages q := by
    intro q ptr hq
    by_cases hqp : q = p
    · subst hqp
      simp only [St.setPackage, Function.update_self] at hq
      exact absurd hq (hpc ptr)
    · exact ⟨hqp, Function.update_of_ne hqp _ _⟩
  refine ⟨h.made, h.inj, fun q ptr hq => ?_, fun q r ptr hq hr => ?_, h.erased⟩
  · obtain ⟨-, heq⟩ := hin q ptr hq
    rw [heq] at hq ⊢
    exact h.stored q ptr hq
  · obtain ⟨-, heq⟩ := hin q ptr hq
    obtain ⟨-, heq'⟩ := hin r ptr hr
    rw [heq] at hq
    rw [heq'] at hr
    exact h.alone q r ptr hq hr

/-- The object stored for the session was free. -/
theorem Exclusive.enter (h : Exclusive s) {ptr : Nat}
    (hptr : s.clients.lookup session.id = some ptr) (hfree : (s.frontends ptr).inUse = false) :
    Exclusive ((s.setFrontend ptr { s.frontends ptr with inUse := true }).setPackage p
      ⟨session, .inside ptr⟩) := by
  have hnobody : ∀ q, (s.packages q).pc ≠ .inside ptr := by
    intro q hq
    rw [(h.stored q ptr hq).2] at hfree
    cases hfree
  refine ⟨h.made, h.inj, fun q ptr' hq => ?_, fun q r ptr' hq hr => ?_, h.erased⟩
  · simp only [St.setPackage, St.setFrontend] at hq ⊢
    by_cases hqp : q = p
    · subst hqp
      rw [Function.update_self] at hq ⊢
      cases hq
      exact ⟨hptr, by rw [Function.update_self]⟩
    · rw [Function.update_of_ne hqp] at hq ⊢
      have hne : ptr' ≠ ptr := by
        rintro rfl
        exact hnobody q hq
      rw [Function.update_of_ne hne]
      exact h.stored q ptr' hq
  · simp only [St.setPackage, St.setFrontend] at hq hr
    by_cases hqp : q = p
    · by_cases hrp : r = p
      · rw [hqp, hrp]
      · subst hqp
        rw [Function.update_self] at hq
        rw [Function.update_of_ne hrp] at hr
        cases hq
        exact absurd hr (hnobody r)
    · rw [Function.update_of_ne hqp] at hq
      by_cases hrp : r = p
      · subst hrp
        rw [Function.update_self] at hr
        cases hr
        exact absurd hq (hnobody q)
      · rw [Function.update_of_ne hrp] at hr
        exact h.alone q r ptr' hq hr

/-- A new object is stored for a session that has none. -/
theorem Exclusive.store (h : Exclusive s) (hnone : s.clients.lookup session.id = none)
    (f : Frontend φ) :
    Exclusive { s.setFrontend s.made f with
      clients := s.clients.insert session.id s.made
      made := s.made + 1 } := by
  have hold : ∀ i ptr, (s.clients.insert session.id s.made).lookup i = some ptr →
      (i = session.id ∧ ptr = s.made) ∨ s.clients.lookup i = some ptr := by
    intro i ptr hi
    rcases Table.lookup_insert_iff.mp hi with ⟨rfl, rfl⟩ | ⟨-, hi⟩
    · exact .inl ⟨rfl, rfl⟩
    · exact .inr hi
  refine ⟨fun i ptr hi => ?_, fun i j ptr hi hj => ?_, fun q ptr hq => ?_, h.alone,
    fun i ptr hmem => ?_⟩
  · rcases hold i ptr hi with ⟨-, rfl⟩ | hi
    · exact Nat.lt_succ_self _
    · exact Nat.lt_succ_of_lt (h.made i ptr hi)
  · rcases hold i ptr hi with ⟨rfl, rfl⟩ | hi
    · rcases hold j _ hj with ⟨rfl, -⟩ | hj
      · rfl
      · exact absurd (h.made j _ hj) (Nat.lt_irrefl _)
    · rcases hold j ptr hj with ⟨-, rfl⟩ | hj
      · exact absurd (h.made i _ hi) (Nat.lt_irrefl _)
      · exact h.inj i j ptr hi hj
  · obtain ⟨hl, huse⟩ := h.stored q ptr hq
    have hne : ptr ≠ s.made := Nat.ne_of_lt (h.made _ ptr hl)
    refine ⟨Table.lookup_insert_of hnone _ hl, ?_⟩
    simp only [St.setFrontend]
    rw [Function.update_of_ne hne]
    exact huse
  · obtain ⟨hlt, hno⟩ := h.erased i ptr hmem
    refine ⟨Nat.lt_succ_of_lt hlt, fun j hj => ?_⟩
    rcases hold j ptr hj with ⟨-, rfl⟩ | hj
    · exact Nat.lt_irrefl _ hlt
    · exact hno j hj

theorem getFrontend_exclusive (h : Exclusive s) : Exclusive (getFrontend F s p session) := by
  unfold getFrontend
  split
  · rename_i ptr hptr
    split
    · exact h.away fun ptr hpc => by cases hpc
    · rename_i hfree
      exact h.enter hptr (by simpa using hfree)
  · rename_i hnone
    -- a new object that is not in use, which is then entered
    have hlookup : (s.clients.insert session.id s.made).lookup session.id = some s.made :=
      AList.lookup_insert _
    have hstore := (h.store hnone ⟨false, F.create⟩).enter (p := p) hlookup
      (by simp [St.setFrontend])
    simpa [St.setFrontend, St.setPackage] using hstore

/-! ## `release_frontend` -/

/-- What a package needs to leave: nobody else is inside of its object. -/
theorem releaseFrontend_exclusive (h : Exclusive s) {ptr : Nat}
    (hp : s.packages p = ⟨session, .inside ptr⟩) :
    Exclusive ((releaseFrontend F s session).setPackage p ⟨session, .outside⟩) := by
  have hpc : (s.packages p).pc = .inside ptr := by rw [hp]
  have hl : s.clients.lookup session.id = some ptr := by
    have := (h.stored p ptr hpc).1
    rwa [hp] at this
  have haway : Exclusive (s.setPackage p ⟨session, .outside⟩) := h.away fun ptr hpc => by cases hpc
  have hnobody : ∀ q ptr', ((s.setPackage p ⟨session, .outside⟩).packages q).pc = .inside ptr' →
      ptr' ≠ ptr := by
    rintro q _ hq rfl
    simp only [St.setPackage] at hq
    by_cases hqp : q = p
    · subst hqp
      rw [Function.update_self] at hq
      cases hq
    · rw [Function.update_of_ne hqp] at hq
      exact hqp (h.alone q p _ hq hpc)
  unfold releaseFrontend
  rw [hl]
  simp only
  split
  · refine ⟨fun i ptr' hi => haway.made i ptr' (Table.lookup_of_erase hi),
      fun i j ptr' hi hj => haway.inj i j ptr' (Table.lookup_of_erase hi)
        (Table.lookup_of_erase hj), fun q ptr' hq => ?_, haway.alone, fun i ptr' hmem => ?_⟩
    · obtain ⟨hl', huse⟩ := haway.stored q ptr' hq
      refine ⟨Table.lookup_erase_iff.mpr ⟨fun hid => ?_, hl'⟩, huse⟩
      have heq := hl'.symm.trans ((congrArg s.clients.lookup hid).trans hl)
      exact hnobody q ptr' hq (Option.some.inj heq)
    · rcases List.mem_cons.mp hmem with heq | hmem
      · cases heq
        refine ⟨h.made _ _ hl, fun j hj => ?_⟩
        obtain ⟨hne, hj⟩ := Table.lookup_erase_iff.mp hj
        exact hne (h.inj _ _ _ hj hl)
      · rcases List.mem_append.mp hmem with hmem | hmem
        · obtain ⟨e, -, heq⟩ := List.mem_map.mp hmem
          cases heq
        · obtain ⟨hlt, hno⟩ := h.erased i ptr' hmem
          exact ⟨hlt, fun j hj => hno j (Table.lookup_of_erase hj)⟩
  · refine ⟨haway.made, haway.inj, fun q ptr' hq => ?_, haway.alone, haway.erased⟩
    obtain ⟨hl', huse⟩ := haway.stored q ptr' hq
    refine ⟨hl', ?_⟩
    simp only [St.setPackage, St.setFrontend]
    rw [Function.update_of_ne (hnobody q ptr' hq)]
    exact huse

/-! ## Runs -/

/-- The work on an object changes its state, the package's flag and what has been sent. -/
theorem work_exclusive (h : Exclusive s) {ptr : Nat} (hp : s.packages p = ⟨session, .inside ptr⟩)
    (x : φ) (closed : Bool) (sent : List ε) :
    Exclusive { (s.setFrontend ptr { s.frontends ptr with state := x }).setPackage p
        ⟨{ session with isClosed := closed }, .inside ptr⟩ with
      log := sent.map (.sent session.id ptr) ++ s.log } := by
  have hsame : ∀ q, (Function.update s.packages p
        ⟨{ session with isClosed := closed }, .inside ptr⟩ q).pc = (s.packages q).pc ∧
      (Function.update s.packages p
        ⟨{ session with isClosed := closed }, .inside ptr⟩ q).session.id =
          (s.packages q).session.id := by
    intro q
    by_cases hqp : q = p
    · subst hqp
      rw [Function.update_self, hp]
      exact ⟨rfl, rfl⟩
    · rw [Function.update_of_ne hqp]
      exact ⟨rfl, rfl⟩
  refine ⟨h.made, h.inj, fun q ptr' hq => ?_, fun q r ptr' hq hr => ?_, fun i ptr' hmem => ?_⟩
  · simp only [St.setPackage, St.setFrontend] at hq ⊢
    rw [(hsame q).1] at hq
    obtain ⟨hl, huse⟩ := h.stored q ptr' hq
    rw [(hsame q).2]
    refine ⟨hl, ?_⟩
    by_cases hptr : ptr' = ptr
    · subst hptr
      rw [Function.update_self]
      exact huse
    · rw [Function.update_of_ne hptr]
      exact huse
  · simp only [St.setPackage, St.setFrontend] at hq hr
    rw [(hsame q).1] at hq
    rw [(hsame r).1] at hr
    exact h.alone q r ptr' hq hr
  · rcases List.mem_append.mp hmem with hmem | hmem
    · obtain ⟨e, -, heq⟩ := List.mem_map.mp hmem
      cases heq
    · exact h.erased i ptr' hmem

theorem Exclusive.record (h : Exclusive s) (i : SessionId) (closed : Bool) :
    Exclusive { s with log := .released i closed :: s.log } := by
  refine ⟨h.made, h.inj, h.stored, h.alone, fun j ptr hmem => ?_⟩
  rcases List.mem_cons.mp hmem with heq | hmem
  · cases heq
  · exact h.erased j ptr hmem

theorem exclusive_step {a : Label α} (h : Exclusive s) (hs : step F s a = some s') :
    Exclusive s' := by
  obtain ⟨session, -, rfl⟩ | ⟨p, x, session, ptr, rfl, hp, rfl⟩ | ⟨p, session, ptr, rfl, hp, rfl⟩ :=
    step_cases hs
  · exact getFrontend_exclusive h
  · exact work_exclusive h hp _ _ _
  · exact (releaseFrontend_exclusive h hp).record _ _

theorem exclusive_of_reach {ok : St φ ε → Label α → Prop} (h : Reach (step F) init ok s) :
    Exclusive s :=
  h.invariant (fun _ => exclusive_of_init) fun _ _ _ hi _ hs => exclusive_step hi hs

/-- Whatever the filter, in every run: two packages inside of `get_frontend` … `release_frontend`
have different sessions; the object each got is in use and is the one stored for its session; and
it has not been dropped from `m_clients`. -/
theorem exclusion (F : Filter φ α ε) {s : St φ ε} (h : Reach (step F) init Any s) :
    (∀ p q ptr ptr', (s.packages p).pc = .inside ptr → (s.packages q).pc = .inside ptr' →
      (s.packages p).session.id = (s.packages q).session.id → p = q) ∧
    (∀ p ptr, (s.packages p).pc = .inside ptr →
      s.clients.lookup (s.packages p).session.id = some ptr ∧ (s.frontends ptr).inUse = true) ∧
    ∀ p ptr, (s.packages p).pc = .inside ptr → ∀ i, .erased i ptr ∉ s.log := by
  have hx := exclusive_of_reach h
  refine ⟨fun p q ptr ptr' hp hq hid => ?_, hx.stored, fun p ptr hp i hmem => ?_⟩
  · have hlp := (hx.stored p ptr hp).1
    have hlq := (hx.stored q ptr' hq).1
    rw [hid, hlq] at hlp
    cases hlp
    exact hx.alone p q _ hp hq
  · exact (hx.erased i ptr hmem).2 _ (hx.stored p ptr hp).1

/-- The second package of session 7 waits until the first has left. -/
theorem exclusion_two : ∃ s : St Unit Empty, (s.packages 1).pc = .inside 0 ∧
    ∀ q ptr, (s.packages q).pc = .inside ptr → (s.packages q).session.id = 7 → q = 1 := by
  have hrun : (run (step plain) (.start plain)
      [.arrive 0 ⟨7, false⟩, .arrive 1 ⟨7, false⟩, .wake 1, .release 0, .wake 1]).any
      (fun s => s.packages 1 = ⟨⟨7, false⟩, .inside 0⟩) := by
    decide
  obtain ⟨s, hr, hs⟩ := Reach.exists_of_run (init_start plain) (runOk_any _ _) hrun
  have hpkg : s.packages 1 = ⟨⟨7, false⟩, .inside 0⟩ := of_decide_eq_true hs
  have hpc : (s.packages 1).pc = .inside 0 := by rw [hpkg]
  refine ⟨s, hpc, fun q ptr hq hid => ?_⟩
  exact (exclusion plain hr).1 q 1 ptr 0 hq hpc (by rw [hid, hpkg])

end Clients
end Metaproxy
