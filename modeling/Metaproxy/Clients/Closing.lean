import Metaproxy.Clients.Exclusion

/-!
# Clients.Closing

What is left of a session once its packages are through. A package that is released with its
session closed drops the object; a package that waits for it, or comes later, has a copy of its own
and makes a new object, which it leaves behind if its copy is open.

* `Settled` — a session that nobody is inside for has no entry if and only if the last package
  released for it was closed, or none was released.
* `Accounted` — a backend session that was opened has been sent a closing package, or is held by
  the object that is stored for the session. It rests on what the filter does (`Closes`).
* `leaves_iff` — so the last release decides.
-/

namespace Metaproxy
namespace Clients

open Lib

variable {φ α ε : Type*}

/-- The flag of the last package that was released for the session. -/
def lastRelease (i : SessionId) : List (Event ε) → Option Bool
  | [] => none
  | .released j closed :: log => if j = i then some closed else lastRelease i log
  | _ :: log => lastRelease i log

@[simp] theorem lastRelease_sent (i j : SessionId) (ptr : Nat) (l : List ε)
    (log : List (Event ε)) :
    lastRelease i (l.map (.sent j ptr) ++ log) = lastRelease i log := by
  induction l with
  | nil => rfl
  | cons e l ih => exact ih

theorem lastRelease_isSome {i : SessionId} {closed : Bool} {log : List (Event ε)}
    (h : .released i closed ∈ log) : lastRelease i log ≠ none := by
  induction log with
  | nil => cases h
  | cons e log ih =>
    cases e with
    | released j c =>
      rw [lastRelease]
      split_ifs with hj
      · exact Option.some_ne_none c
      · refine ih ?_
        rcases List.mem_cons.mp h with heq | h
        · cases heq
          exact absurd rfl hj
        · exact h
    | erased j ptr =>
      rcases List.mem_cons.mp h with heq | h
      · cases heq
      · exact ih h
    | sent j ptr e =>
      rcases List.mem_cons.mp h with heq | h
      · cases heq
      · exact ih h

/-! ## Nobody inside -/

section Settled

variable {F : Filter φ α ε} {s s' : St φ ε} {p : Nat} {session : Session}

/-- No package of the session is between the two calls. -/
def Nobody (s : St φ ε) (i : SessionId) : Prop :=
  ∀ p ptr, (s.packages p).pc = .inside ptr → (s.packages p).session.id ≠ i

/-- A package that was not inside does not matter. -/
theorem Nobody.before {i : SessionId} {pkg : Package} (h : Nobody s' i)
    (hs : s'.packages = Function.update s.packages p pkg)
    (hp : ∀ ptr, (s.packages p).pc ≠ .inside ptr) : Nobody s i := by
  intro q ptr hq
  by_cases hqp : q = p
  · subst hqp
    exact absurd hq (hp ptr)
  · have := h q ptr
    rw [hs, Function.update_of_ne hqp] at this
    exact this hq

/-- Nor does one of another session. -/
theorem Nobody.other {i : SessionId} {pkg : Package} (h : Nobody s' i)
    (hs : s'.packages = Function.update s.packages p pkg)
    (hp : (s.packages p).session.id ≠ i) : Nobody s i := by
  intro q ptr hq
  by_cases hqp : q = p
  · subst hqp
    exact hp
  · have := h q ptr
    rw [hs, Function.update_of_ne hqp] at this
    exact this hq

def Settled (s : St φ ε) : Prop :=
  ∀ i, Nobody s i → (s.clients.lookup i = none ↔ lastRelease i s.log ≠ some false)

theorem settled_of_init (h : init s) : Settled s := by
  obtain ⟨hclients, -, -, hlog⟩ := h
  intro i _
  rw [hclients, hlog]
  exact iff_of_true (AList.lookup_empty i) (by simp [lastRelease])

theorem getFrontend_settled (h : Settled s) (hp : ∀ ptr, (s.packages p).pc ≠ .inside ptr) :
    Settled (getFrontend F s p session) := by
  unfold getFrontend
  split
  · split
    · intro i hi
      exact h i (hi.before rfl hp)
    · intro i hi
      exact h i (hi.before rfl hp)
  · -- the new object is for the session of the package, which is inside now
    intro i hi
    have hne : i ≠ session.id := by
      refine fun heq => hi p s.made ?_ ?_
      · simp [St.setPackage]
      · simp [St.setPackage, heq]
    have hold := h i (hi.before rfl hp)
    simp only [St.setPackage, St.setFrontend]
    rw [AList.lookup_insert_ne hne]
    exact hold

theorem packages_releaseFrontend (session : Session) :
    (releaseFrontend F s session).packages = s.packages := by
  unfold releaseFrontend
  split
  · split <;> rfl
  · rfl

/-- The two branches for the session of the package, and the other sessions. -/
theorem release_settled (h : Settled s) (hx : Exclusive s) {ptr : Nat}
    (hp : s.packages p = ⟨session, .inside ptr⟩) :
    Settled { (releaseFrontend F s session).setPackage p ⟨session, .outside⟩ with
      log := .released session.id session.isClosed :: (releaseFrontend F s session).log } := by
  have hl : s.clients.lookup session.id = some ptr := by
    have := (hx.stored p ptr (by rw [hp])).1
    rwa [hp] at this
  intro i hi
  by_cases heq : session.id = i
  · subst heq
    simp only [lastRelease, if_true, St.setPackage]
    unfold releaseFrontend
    rw [hl]
    simp only
    cases hc : session.isClosed with
    | true =>
      rw [if_pos rfl]
      exact iff_of_true (AList.lookup_erase _ _) (by decide)
    | false =>
      rw [if_neg (by decide)]
      refine iff_of_false ?_ (by decide)
      simp only [St.setFrontend]
      rw [hl]
      exact Option.some_ne_none ptr
  · have hold : Nobody s i → (s.clients.lookup i = none ↔ lastRelease i s.log ≠ some false) := h i
    have hpackages : ((releaseFrontend F s session).setPackage p ⟨session, .outside⟩).packages =
        Function.update s.packages p ⟨session, .outside⟩ := by
      rw [St.setPackage, packages_releaseFrontend]
    have hnobody : Nobody s i := hi.other hpackages (by rw [hp]; exact heq)
    simp only [lastRelease, if_neg heq, St.setPackage]
    unfold releaseFrontend
    rw [hl]
    simp only
    split
    · rw [AList.lookup_erase_ne (Ne.symm heq)]
      simpa [lastRelease] using hold hnobody
    · exact hold hnobody

theorem settled_step {a : Label α} (hx : Exclusive s) (h : Settled s)
    (hs : step F s a = some s') : Settled s' := by
  obtain ⟨session, hp, rfl⟩ | ⟨p, x, session, ptr, rfl, hp, rfl⟩ | ⟨p, session, ptr, rfl, hp, rfl⟩ :=
    step_cases hs
  · exact getFrontend_settled h hp
  · intro i hi
    have hne : session.id ≠ i := by
      have := hi p ptr
      simpa [St.setPackage] using this
    have hold := h i (hi.other rfl (by rw [hp]; exact hne))
    simpa [St.setPackage, St.setFrontend] using hold
  · exact release_settled h hx hp

theorem settled_of_reach {ok : St φ ε → Label α → Prop} (h : Reach (step F) init ok s) :
    Settled s :=
  h.invariant_with (fun _ => exclusive_of_reach) (fun _ => settled_of_init)
    fun _ _ _ hx hi _ hs => settled_step hx hi hs

end Settled

/-! ## Backend sessions -/

/-- What happens to the backend sessions of an object. -/
inductive Traffic where
  /-- An init package has come back, with the session open. -/
  | opened (b : Nat)
  /-- A package that closes the session is sent. -/
  | closing (b : Nat)
deriving DecidableEq, Repr

/-- The object holds the sessions it has opened until it sends them a closing package, and
`Frontend::close` sends one to all. -/
structure Closes (F : Filter φ α Traffic) (backends : φ → List Nat) : Prop where
  keeps : ∀ x a, ∀ b ∈ backends x,
    b ∈ backends (F.process x a).1 ∨ .closing b ∈ (F.process x a).2.2
  opens : ∀ x a b, .opened b ∈ (F.process x a).2.2 →
    b ∈ backends (F.process x a).1 ∨ .closing b ∈ (F.process x a).2.2
  close : ∀ x, ∀ b ∈ backends x, .closing b ∈ F.close x
  close_opens : ∀ x b, .opened b ∉ F.close x

def Accounted (backends : φ → List Nat) (s : St φ Traffic) : Prop :=
  ∀ i ptr b, .sent i ptr (.opened b) ∈ s.log → .sent i ptr (.closing b) ∈ s.log ∨
    (s.clients.lookup i = some ptr ∧ b ∈ backends (s.frontends ptr).state)

section Accounted

variable {F : Filter φ α Traffic} {backends : φ → List Nat} {s s' : St φ Traffic} {p : Nat}
  {session : Session}

theorem mem_sent {i j : SessionId} {ptr ptr' : Nat} {e : Traffic} {l : List Traffic}
    {log : List (Event Traffic)} :
    .sent i ptr e ∈ l.map (.sent j ptr') ++ log ↔
      (i = j ∧ ptr = ptr' ∧ e ∈ l) ∨ .sent i ptr e ∈ log := by
  rw [List.mem_append, List.mem_map]
  refine or_congr_left ⟨?_, ?_⟩
  · rintro ⟨e, he, heq⟩
    cases heq
    exact ⟨rfl, rfl, he⟩
  · rintro ⟨rfl, rfl, he⟩
    exact ⟨e, he, rfl⟩

theorem getFrontend_accounted (h : Accounted backends s) (hx : Exclusive s) :
    Accounted backends (getFrontend F s p session) := by
  unfold getFrontend
  split
  · rename_i ptr' hptr'
    split
    · exact h
    · intro i ptr b hopened
      refine (h i ptr b hopened).imp_right fun ⟨hl, hb⟩ => ⟨hl, ?_⟩
      simp only [St.setPackage, St.setFrontend]
      by_cases hptr : ptr = ptr'
      · subst hptr
        rw [Function.update_self]
        exact hb
      · rw [Function.update_of_ne hptr]
        exact hb
  · rename_i hnone
    intro i ptr b hopened
    refine (h i ptr b hopened).imp_right fun ⟨hl, hb⟩ => ?_
    have hne : ptr ≠ s.made := Nat.ne_of_lt (hx.made i ptr hl)
    refine ⟨Table.lookup_insert_of hnone _ hl, ?_⟩
    simp only [St.setPackage, St.setFrontend]
    rw [Function.update_of_ne hne]
    exact hb

theorem work_accounted (hF : Closes F backends) (h : Accounted backends s) (hx : Exclusive s)
    {ptr : Nat} (hp : s.packages p = ⟨session, .inside ptr⟩) (a : α) (pkg : Package) :
    Accounted backends { (s.setFrontend ptr
        { s.frontends ptr with state := (F.process (s.frontends ptr).state a).1 }).setPackage p pkg
      with log := (F.process (s.frontends ptr).state a).2.2.map (.sent session.id ptr) ++ s.log } := by
  have hstored : s.clients.lookup session.id = some ptr := by
    have := (hx.stored p ptr (by rw [hp])).1
    rwa [hp] at this
  intro i ptr' b hopened
  simp only [St.setPackage, St.setFrontend]
  rw [mem_sent]
  rcases mem_sent.mp hopened with ⟨rfl, rfl, he⟩ | he
  · rw [Function.update_self]
    rcases hF.opens _ _ b he with hb | hclosing
    · exact .inr ⟨hstored, hb⟩
    · exact .inl (.inl ⟨rfl, rfl, hclosing⟩)
  · rcases h i ptr' b he with hclosing | ⟨hl, hb⟩
    · exact .inl (.inr hclosing)
    · by_cases hptr : ptr' = ptr
      · subst hptr
        rw [Function.update_self]
        rcases hF.keeps _ a b hb with hb | hclosing
        · exact .inr ⟨hl, hb⟩
        · exact .inl (.inl ⟨hx.inj _ _ _ hl hstored, rfl, hclosing⟩)
      · rw [Function.update_of_ne hptr]
        exact .inr ⟨hl, hb⟩

theorem release_accounted (hF : Closes F backends) (h : Accounted backends s) :
    Accounted backends (releaseFrontend F s session) := by
  unfold releaseFrontend
  split
  · rename_i ptr hptr
    split
    · intro i ptr' b hopened
      have hmem : ∀ e : Traffic, .sent i ptr' e ∈ (.erased session.id ptr ::
          ((F.close (s.frontends ptr).state).map (.sent session.id ptr) ++ s.log) :
            List (Event Traffic)) ↔ (i = session.id ∧ ptr' = ptr ∧
              e ∈ F.close (s.frontends ptr).state) ∨ .sent i ptr' e ∈ s.log := by
        intro e
        rw [List.mem_cons, mem_sent]
        exact or_iff_right (by rintro ⟨⟩)
      simp only at hopened ⊢
      rw [hmem] at hopened ⊢
      rcases hopened with ⟨-, -, he⟩ | he
      · exact absurd he (hF.close_opens _ b)
      · rcases h i ptr' b he with hclosing | ⟨hl, hb⟩
        · exact .inl (.inr hclosing)
        · by_cases hi : i = session.id
          · -- the object that is dropped
            subst hi
            obtain rfl : ptr' = ptr := Option.some.inj (hl.symm.trans hptr)
            exact .inl (.inl ⟨rfl, rfl, hF.close _ b hb⟩)
          · exact .inr ⟨Table.lookup_erase_iff.mpr ⟨hi, hl⟩, hb⟩
    · intro i ptr' b hopened
      refine (h i ptr' b hopened).imp_right fun ⟨hl, hb⟩ => ⟨hl, ?_⟩
      simp only [St.setFrontend]
      by_cases hptr' : ptr' = ptr
      · subst hptr'
        rw [Function.update_self]
        exact hb
      · rw [Function.update_of_ne hptr']
        exact hb
  · exact h

theorem accounted_step (hF : Closes F backends) {a : Label α} (hx : Exclusive s)
    (h : Accounted backends s) (hs : step F s a = some s') : Accounted backends s' := by
  obtain ⟨session, -, rfl⟩ | ⟨p, x, session, ptr, rfl, hp, rfl⟩ | ⟨p, session, ptr, rfl, hp, rfl⟩ :=
    step_cases hs
  · exact getFrontend_accounted h hx
  · exact work_accounted hF h hx hp x _
  · have hrel : Accounted backends (releaseFrontend F s session) := release_accounted hF h
    intro i ptr' b hopened
    refine (hrel i ptr' b ((List.mem_cons.mp hopened).resolve_left ?_)).imp_left
      (List.mem_cons_of_mem _)
    rintro ⟨⟩

theorem accounted_of_reach (hF : Closes F backends) {ok : St φ Traffic → Label α → Prop}
    (h : Reach (step F) init ok s) : Accounted backends s := by
  refine h.invariant_with (fun _ => exclusive_of_reach) (fun s hs => ?_)
    fun _ _ _ hx hi _ hs => accounted_step hF hx hi hs
  intro i ptr b hopened
  rw [hs.2.2.2] at hopened
  cases hopened

end Accounted

/-! ## The last release -/

/-- All packages of the session have left, at least one of them with the session closed. -/
structure Left (i : SessionId) (s : St φ ε) : Prop where
  outside : ∀ p, (s.packages p).session.id = i → (s.packages p).pc = .outside
  closed : .released i true ∈ s.log

/-- Nothing is left of the session, in the filter and in the backends. -/
structure Leaves (i : SessionId) (s : St φ Traffic) : Prop where
  entry : s.clients.lookup i = none
  backends : ∀ ptr b, .sent i ptr (.opened b) ∈ s.log → .sent i ptr (.closing b) ∈ s.log

theorem Left.nobody {i : SessionId} {s : St φ ε} (h : Left i s) : Nobody s i := by
  intro p ptr hp hi
  rw [h.outside p hi] at hp
  cases hp

theorem entry_iff {F : Filter φ α ε} {s : St φ ε} {i : SessionId} (h : Reach (step F) init Any s)
    (hleft : Left i s) : s.clients.lookup i = none ↔ lastRelease i s.log = some true := by
  rw [settled_of_reach h i hleft.nobody]
  have hsome := lastRelease_isSome hleft.closed
  rcases hlast : lastRelease i s.log with _ | _ | _
  · exact absurd hlast hsome
  · simp
  · simp

theorem leaves_iff {F : Filter φ α Traffic} {backends : φ → List Nat} {s : St φ Traffic}
    {i : SessionId} (hF : Closes F backends) (h : Reach (step F) init Any s) (hleft : Left i s) :
    Leaves i s ↔ lastRelease i s.log = some true := by
  rw [← entry_iff h hleft]
  refine ⟨Leaves.entry, fun hnone => ⟨hnone, fun ptr b hopened => ?_⟩⟩
  rcases accounted_of_reach hF h i ptr b hopened with hclosing | ⟨hl, -⟩
  · exact hclosing
  · rw [hnone] at hl
    cases hl

/-- A package is not released open after one of its session that was closed. -/
def InOrder (s : St φ ε) : Label α → Prop
  | .release p => (s.packages p).session.isClosed = false →
    .released (s.packages p).session.id true ∉ s.log
  | _ => True

section InOrder

variable {F : Filter φ α ε} {s s' : St φ ε}

/-- A closed release is the last word on its session. -/
def Prompt (log : List (Event ε)) : Prop :=
  ∀ i, .released i true ∈ log → lastRelease i log = some true

theorem Prompt.sent {log : List (Event ε)} (h : Prompt log) (j : SessionId) (ptr : Nat)
    (l : List ε) : Prompt (l.map (.sent j ptr) ++ log) := by
  intro i hi
  rw [lastRelease_sent]
  refine h i ((List.mem_append.mp hi).resolve_left fun hmem => ?_)
  obtain ⟨e, -, heq⟩ := List.mem_map.mp hmem
  cases heq

theorem Prompt.erased {log : List (Event ε)} (h : Prompt log) (j : SessionId) (ptr : Nat) :
    Prompt (.erased j ptr :: log) := by
  intro i hi
  refine h i ((List.mem_cons.mp hi).resolve_left ?_)
  rintro ⟨⟩

theorem Prompt.released {log : List (Event ε)} (h : Prompt log) {j : SessionId} {closed : Bool}
    (hj : closed = false → .released j true ∉ log) : Prompt (.released j closed :: log) := by
  intro i hi
  rw [lastRelease]
  split_ifs with heq
  · subst heq
    cases closed with
    | true => rfl
    | false => exact absurd ((List.mem_cons.mp hi).resolve_left (by rintro ⟨⟩)) (hj rfl)
  · refine h i ((List.mem_cons.mp hi).resolve_left ?_)
    rintro ⟨⟩
    exact heq rfl

theorem log_getFrontend (p : Nat) (session : Session) :
    (getFrontend F s p session).log = s.log := by
  unfold getFrontend
  split
  · split <;> rfl
  · rfl

theorem releaseFrontend_prompt (h : Prompt s.log) (session : Session) :
    Prompt (releaseFrontend F s session).log ∧
      ∀ i, .released i true ∈ (releaseFrontend F s session).log → .released i true ∈ s.log := by
  unfold releaseFrontend
  split
  · split
    · refine ⟨(h.sent _ _ _).erased _ _, fun i hi => ?_⟩
      have hi := (List.mem_cons.mp hi).resolve_left (by rintro ⟨⟩)
      refine (List.mem_append.mp hi).resolve_left fun hmem => ?_
      obtain ⟨e, -, heq⟩ := List.mem_map.mp hmem
      cases heq
    · exact ⟨h, fun _ hi => hi⟩
  · exact ⟨h, fun _ hi => hi⟩

theorem prompt_step {a : Label α} (h : Prompt s.log) (hok : InOrder s a)
    (hs : step F s a = some s') : Prompt s'.log := by
  obtain ⟨session, -, rfl⟩ | ⟨p, x, session, ptr, rfl, hp, rfl⟩ | ⟨p, session, ptr, rfl, hp, rfl⟩ :=
    step_cases hs
  · rw [log_getFrontend]
    exact h
  · exact h.sent _ _ _
  · obtain ⟨hprompt, hmem⟩ := releaseFrontend_prompt (F := F) h session
    refine hprompt.released fun hopen hi => ?_
    rw [InOrder, hp] at hok
    exact hok hopen (hmem _ hi)

/-- In runs whose releases are in order, the last one is closed as soon as one is. -/
theorem lastRelease_of_inOrder (h : Reach (step F) init InOrder s) {i : SessionId}
    (hclosed : .released i true ∈ s.log) : lastRelease i s.log = some true := by
  refine h.invariant (I := fun s => Prompt s.log) (fun s hs i hi => ?_)
    (fun _ _ _ ih hok hs => prompt_step ih hok hs) i hclosed
  rw [hs.2.2.2] at hi
  cases hi

end InOrder

/-! ## Runs of single packages -/

section Runs

variable {F : Filter φ α ε} {s s' : St φ ε}

theorem packages_getFrontend {p q : Nat} {session : Session} (h : q ≠ p) :
    (getFrontend F s p session).packages q = s.packages q := by
  unfold getFrontend
  split
  · split
    · exact Function.update_of_ne h _ _
    · exact Function.update_of_ne h _ _
  · exact Function.update_of_ne h _ _

theorem step_packages {a : Label α} {q : Nat} (hs : step F s a = some s') (hq : q ≠ a.package) :
    s'.packages q = s.packages q := by
  obtain ⟨session, -, rfl⟩ | ⟨p, x, session, ptr, rfl, hp, rfl⟩ | ⟨p, session, ptr, rfl, hp, rfl⟩ :=
    step_cases hs
  · exact packages_getFrontend hq
  · exact Function.update_of_ne hq _ _
  · simp only [St.setPackage, packages_releaseFrontend]
    exact Function.update_of_ne hq _ _

theorem run_packages {q : Nat} {labels : List (Label α)} (hs : run (step F) s labels = some s')
    (hq : ∀ a ∈ labels, q ≠ a.package) : s'.packages q = s.packages q := by
  induction labels generalizing s with
  | nil =>
    cases hs
    rfl
  | cons a labels ih =>
    obtain ⟨s1, h1, h2⟩ := Option.bind_eq_some_iff.mp hs
    rw [ih h2 fun a' ha' => hq a' (List.mem_cons_of_mem a ha'),
      step_packages h1 (hq a List.mem_cons_self)]

/-- A run whose own packages are outside in the end. -/
theorem exists_left [DecidableEq ε] {i : SessionId} {labels : List (Label α)} {p : St φ ε → Bool}
    (h : (run (step F) (.start F) labels).any fun s =>
      (labels.all fun a => (s.packages a.package).pc = .outside) &&
        (decide (.released i true ∈ s.log) && p s)) :
    ∃ s, Reach (step F) init Any s ∧ Left i s ∧ p s = true := by
  cases hrun : run (step F) (.start F) labels with
  | none =>
    rw [hrun] at h
    cases h
  | some s =>
    rw [hrun] at h
    simp only [Option.any_some, Bool.and_eq_true, decide_eq_true_eq, List.all_eq_true] at h
    obtain ⟨houtside, hclosed, hp⟩ := h
    refine ⟨s, (Reach.start (init_start F)).of_run (runOk_any _ _) hrun, ⟨fun q _ => ?_, hclosed⟩, hp⟩
    by_cases hq : ∃ a ∈ labels, q = a.package
    · obtain ⟨a, ha, rfl⟩ := hq
      exact houtside a ha
    · push Not at hq
      rw [run_packages hrun hq]
      rfl

end Runs

end Clients
end Metaproxy
