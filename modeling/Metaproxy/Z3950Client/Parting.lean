import Metaproxy.Z3950Client.Answers

/-!
# Z3950Client.Parting

With `force_close` no target is left without a word: when a connection is given up, the target has
been sent a close, or it has not answered the last request, or there never was a connection
(`connections_told`).
-/

namespace Metaproxy
namespace Z3950Client

open Lib

variable {OtherInfo ρ : Type*}

/-- No session is opened by a package that closes it. -/
def Package.Starts (package : Package OtherInfo) : Prop :=
  package.closed = true → ∀ otherInfo, package.request ≠ some (.init otherInfo)

def IoLabel.Starts : IoLabel OtherInfo ρ → Prop
  | .arrive _ package _ => package.Starts
  | _ => True

def Politely (s : St OtherInfo ρ) (a : IoLabel OtherInfo ρ) : Prop := Orderly s a ∧ a.Starts

instance decidableStarts (package : Package OtherInfo) : Decidable package.Starts :=
  match hrequest : package.request with
  | some (.init otherInfo) => decidable_of_iff (package.closed = false) (by
      unfold Package.Starts
      rw [hrequest]
      constructor
      · intro hopen hclosed
        rw [hopen] at hclosed
        cases hclosed
      · intro hstarts
        exact Bool.eq_false_iff.mpr fun hclosed => hstarts hclosed otherInfo rfl)
  | some (.other encoding) => isTrue fun _ _ h => by rw [hrequest] at h; cases h
  | some (.http encoding) => isTrue fun _ _ h => by rw [hrequest] at h; cases h
  | none => isTrue fun _ _ h => by rw [hrequest] at h; cases h

instance decidablePolitely (s : St OtherInfo ρ) : ∀ a, Decidable (Politely s a)
  | .arrive _ package _ => inferInstanceAs (Decidable (True ∧ package.Starts))
  | .wake p => inferInstanceAs (Decidable (Orderly s (.wake p) ∧ True))
  | .timedWake p inTime => inferInstanceAs (Decidable (Orderly s (.timedWake p inTime) ∧ True))
  | .enter p b => inferInstanceAs (Decidable (Orderly s (.enter p b) ∧ True))
  | .event p e => inferInstanceAs (Decidable (Orderly s (.event p e) ∧ True))
  | .leave p => inferInstanceAs (Decidable (Orderly s (.leave p) ∧ True))
  | .stop p => inferInstanceAs (Decidable (Orderly s (.stop p) ∧ True))
  | .finish p => inferInstanceAs (Decidable (Orderly s (.finish p) ∧ True))
  | .release p => inferInstanceAs (Decidable (Orderly s (.release p) ∧ True))
  | .answer a gdu => inferInstanceAs (Decidable (Orderly s (.answer a gdu) ∧ True))

/-! ## Packages before `send_and_receive` returns -/

def Pc.isServed : Pc → Bool
  | .served _ => true
  | _ => false

def AllStart (s : State OtherInfo) : Prop :=
  ∀ p k, s.packages.lookup p = some k → k.pc.isServed = false → k.package.Starts

theorem State.package_settle {s : State OtherInfo} {p : Nat} {package : Package OtherInfo}
    {outcome : Outcome} {k : Held OtherInfo}
    (h : (State.settle p package (s, outcome)).packages.lookup p = some k) :
    k.package = package := by
  cases outcome with
  | assoc assoc =>
    have heq : (s.packages.insert p ⟨package, .inside assoc⟩).lookup p = some k := h
    rw [AList.lookup_insert] at heq
    cases heq
    rfl
  | wait it =>
    have heq : (s.packages.insert p ⟨package, .waiting it⟩).lookup p = some k := h
    rw [AList.lookup_insert] at heq
    cases heq
    rfl
  | timedWait target maxSockets =>
    have heq : (s.packages.insert p ⟨package, .timed target maxSockets⟩).lookup p = some k := h
    rw [AList.lookup_insert] at heq
    cases heq
    rfl
  | move =>
    have heq : (s.packages.erase p).lookup p = some k := h
    rw [AList.lookup_erase] at heq
    cases heq
  | refuse response =>
    have heq : (s.packages.erase p).lookup p = some k := h
    rw [AList.lookup_erase] at heq
    cases heq

/-- What a package has been made into. -/
theorem State.starts_getAssoc (yaz : YazOi OtherInfo) (rep : Rep) (s : State OtherInfo)
    {package : Package OtherInfo} (h : package.Starts) :
    (s.getAssoc yaz rep package).1.Starts := by
  unfold State.getAssoc
  split
  · exact h
  · split
    · rename_i otherInfo hrequest
      have hopen : package.closed ≠ true := fun hclosed => h hclosed otherInfo hrequest
      split
      · exact fun hclosed => absurd hclosed hopen
      · exact fun hclosed => absurd hclosed hopen
    · exact h
    · exact h
    · exact h

theorem AllStart.of_step (yaz : YazOi OtherInfo) (rep : Rep) {s s' : State OtherInfo}
    {a : Label OtherInfo} (h : AllStart s)
    (harrive : ∀ p package, a = .arrive p package → package.Starts)
    (hstep : step yaz rep s a = some s') : AllStart s' := by
  intro q k hq hserved
  by_cases hne : q = a.package
  · cases a with
    | arrive p package =>
      cases hne
      rw [step] at hstep
      split at hstep
      · cases hstep
      · cases hstep
        rw [State.package_settle hq]
        exact State.starts_getAssoc yaz rep s (harrive p package rfl)
    | wake p =>
      cases hne
      rw [step] at hstep
      split at hstep
      · rename_i package it hp
        split at hstep
        · split at hstep
          · cases hstep
            rw [State.package_settle hq]
            exact h p _ hp rfl
          · cases hstep
        · cases hstep
      · cases hstep
    | timedWake p inTime =>
      cases hne
      rw [step] at hstep
      split at hstep
      · rename_i package target maxSockets hp
        cases hstep
        rw [State.package_settle hq]
        exact h p _ hp rfl
      · cases hstep
    | sendAndReceive p aborted =>
      cases hne
      rw [step] at hstep
      split at hstep
      · obtain ⟨as, -, rfl⟩ := Option.map_eq_some_iff.mp hstep
        have hlookup := (AList.lookup_insert s.packages).symm.trans hq
        cases hlookup
        cases hserved
      · cases hstep
    | release p =>
      cases hne
      rw [step] at hstep
      split at hstep
      · cases hstep
        have hnone := (AList.lookup_erase p _).symm.trans hq
        cases hnone
      · cases hstep
  · rw [lookup_of_step yaz rep hstep hne] at hq
    exact h q k hq hserved

/-! ## The invariant -/

structure Parted (s : St OtherInfo ρ) : Prop where
  starts : AllStart s.table
  gone : ∀ a, a < s.table.madeFor.length →
    (∀ as, s.table.bare a = some as → as.destroyed = true) → Told (s.conns a)
  inside : ∀ p package a as, s.table.packages.lookup p = some ⟨package, .inside a⟩ →
    s.table.bare a = some as → package.closed = true →
      (s.works p).io = .entering ∨ as.destroyed = true ∨ (s.conns a).hasClosed = true
  served : ∀ p package a as, s.table.packages.lookup p = some ⟨package, .served a⟩ →
    s.table.bare a = some as → package.closed = true →
      as.destroyed = true ∨ (s.conns a).hasClosed = true ∨ (s.works p).aborted = true

section

variable {yaz : Yaz OtherInfo} {conf : Settings} {host : String} {destroyed : Bool} {p : Nat}
  {package : Package OtherInfo} {c : Conn OtherInfo ρ} {w : Work OtherInfo ρ}

theorem hasClosed_send (s : Sent OtherInfo) : (c.send yaz s).1.hasClosed = c.hasClosed := by
  unfold Conn.send
  split <;> rfl

theorem hasClosed_leave : (package.leave yaz conf p c w).1.hasClosed = c.hasClosed := by
  unfold Package.leave
  split
  · split
    · rfl
    · exact hasClosed_send _
  · rfl

/-- A package whose session is closed sends a close, when none has been sent. -/
theorem Open.enter_closed (h : Open c) (hforce : conf.forceClose = true)
    (hclosed : package.closed = true) (clientFails : Bool) :
    (package.enter yaz conf p clientFails c w).1.hasClosed = true := by
  unfold Package.enter
  dsimp only
  cases hhas : c.hasClosed with
  | true =>
    cases package.apdu? (package.isForced conf c) with
    | none => rfl
    | some apdu =>
      dsimp only
      rw [if_neg h.connected, hasClosed_send]
      simp
  | false =>
    have hforced : package.isForced conf c = true := by
      simp [Package.isForced, hclosed, h.connected, hhas, hforce]
    have happdu : package.apdu? true = some .finished := rfl
    rw [hforced, happdu]
    dsimp only
    rw [if_neg h.connected, hasClosed_send]
    rfl

end

namespace Parted

variable {yaz : Yaz OtherInfo} {conf : Settings} {s : St OtherInfo ρ} {p a : Nat}
  {package : Package OtherInfo}

theorem start : Parted (St.start : St OtherInfo ρ) where
  starts _ _ hp := by cases hp
  gone _ ha := by cases ha
  inside _ _ _ _ hp := by cases hp
  served _ _ _ _ hp := by cases hp

/-- The package in `send_and_receive` goes on. -/
theorem set (h : Parted s) (hexclusive : Exclusive s.table)
    (hp : s.table.packages.lookup p = some ⟨package, .inside a⟩)
    {c : Conn OtherInfo ρ} {w : Work OtherInfo ρ}
    (hgone : (∀ as, s.table.bare a = some as → as.destroyed = true) → c = s.conns a)
    (hclosed : ∀ as, s.table.bare a = some as → package.closed = true →
      w.io = .entering ∨ as.destroyed = true ∨ c.hasClosed = true) : Parted (s.set a p (c, w)) := by
  have hheld : s.table.held p = some a := State.held_of_lookup hp
  have hother : ∀ q k b, q ≠ p → s.table.packages.lookup q = some k → k.pc.assoc = some b →
      (s.set a p (c, w)).conns b = s.conns b := by
    intro q k b hq hk hb
    exact Function.update_of_ne
      (hexclusive.ne_of_held hheld ((State.held_of_lookup hk).trans hb) hq) _ _
  have hwork : ∀ q, q ≠ p → (s.set a p (c, w)).works q = s.works q :=
    fun q hq => Function.update_of_ne hq _ _
  refine ⟨h.starts, ?_, ?_, ?_⟩
  · intro b hb hdestroyed
    show Told (Function.update s.conns a c b)
    by_cases heq : b = a
    · subst heq
      rw [Function.update_self, hgone hdestroyed]
      exact h.gone b hb hdestroyed
    · rw [Function.update_of_ne heq]
      exact h.gone b hb hdestroyed
  · intro q package' b as (hq : s.table.packages.lookup q = _) hbare hclosed'
    by_cases hne : q = p
    · subst hne
      rw [hp] at hq
      cases hq
      show (Function.update s.works q w q).io = _ ∨ _ ∨ (Function.update s.conns a c a).hasClosed = _
      rw [Function.update_self, Function.update_self]
      exact hclosed as hbare hclosed'
    · rw [hwork q hne, hother q _ b hne hq rfl]
      exact h.inside q package' b as hq hbare hclosed'
  · intro q package' b as (hq : s.table.packages.lookup q = _) hbare hclosed'
    have hne : q ≠ p := by
      rintro rfl
      rw [hp] at hq
      cases hq
    rw [hwork q hne, hother q _ b hne hq rfl]
    exact h.served q package' b as hq hbare hclosed'

/-- What is done with an Assoc that is not destroyed. -/
theorem set_stays (h : Parted s) (hexclusive : Exclusive s.table)
    (hp : s.table.packages.lookup p = some ⟨package, .inside a⟩) {as : Assoc}
    (has : s.table.assocs.lookup a = some as) (hstays : as.destroyed = false)
    {c : Conn OtherInfo ρ} {w : Work OtherInfo ρ}
    (hclosed : package.closed = true → c.hasClosed = true) : Parted (s.set a p (c, w)) := by
  refine h.set hexclusive hp ?_ ?_
  · intro hgone
    have hdestroyed := hgone _ (State.bare_of_lookup has)
    rw [show (_ : Bool) = as.destroyed from rfl, hstays] at hdestroyed
    cases hdestroyed
  · intro as' _ hclosed'
    exact .inr (.inr (hclosed hclosed'))

theorem enter (h : Parted s) (hwired : Wired yaz conf s) (hforce : conf.forceClose = true)
    (hp : s.table.packages.lookup p = some ⟨package, .inside a⟩) {as : Assoc}
    (has : s.table.assocs.lookup a = some as) (hio : (s.works p).io = .entering)
    (clientFails : Bool) :
    Parted (s.set a p (
      if as.destroyed then (s.conns a, { s.works p with io := .done })
      else package.enter yaz conf p clientFails (s.conns a) (s.works p))) := by
  have hbare := State.bare_of_lookup has
  cases hdestroyed : as.destroyed with
  | true =>
    rw [if_pos rfl]
    refine h.set hwired.table hp (fun _ => rfl) ?_
    intro as' has' _
    rw [hbare] at has'
    cases has'
    exact .inr (.inl hdestroyed)
  | false =>
    rw [if_neg Bool.false_ne_true]
    refine h.set_stays hwired.table hp has hdestroyed ?_
    intro hclosed
    have hstart : Open (s.conns a) := by
      cases hwired.inside p package a _ hp hbare with
      | entering hfresh hstart =>
        rcases hstart with hbad | hopen | ⟨-, -, otherInfo, hrequest⟩
        · rw [show (_ : Bool) = as.destroyed from rfl, hdestroyed] at hbad
          cases hbad
        · exact hopen
        · exact absurd hrequest (h.starts p _ hp rfl hclosed otherInfo)
      | connecting apdu hio' _ => rw [hio] at hio'; cases hio'
      | receiving forced apdu hio' _ => rw [hio] at hio'; cases hio'
      | done hio' _ => rw [hio] at hio'; cases hio'
    exact hstart.enter_closed hforce hclosed clientFails

/-- A package that waits has an Assoc that is not destroyed. -/
theorem stays_of_waits (hwired : Wired yaz conf s)
    (hp : s.table.packages.lookup p = some ⟨package, .inside a⟩) {as : Assoc}
    (has : s.table.assocs.lookup a = some as) (hwaits : (s.works p).io.waits = true) :
    as.destroyed = false := by
  cases hwired.inside p package a _ hp (State.bare_of_lookup has) with
  | entering hfresh _ => rw [hfresh.io] at hwaits; cases hwaits
  | connecting apdu _ hc => exact hc.stays
  | receiving forced apdu _ hr => exact hr.stays
  | done hio _ => rw [hio] at hwaits; cases hwaits

/-- So it has sent a close, when its session is closed. -/
theorem hasClosed_of_waits (h : Parted s) (hwired : Wired yaz conf s)
    (hp : s.table.packages.lookup p = some ⟨package, .inside a⟩) {as : Assoc}
    (has : s.table.assocs.lookup a = some as) (hwaits : (s.works p).io.waits = true)
    (hclosed : package.closed = true) : (s.conns a).hasClosed = true := by
  rcases h.inside p package a _ hp (State.bare_of_lookup has) hclosed with hio | hdestroyed | hhas
  · rw [hio] at hwaits
    cases hwaits
  · rw [show (_ : Bool) = as.destroyed from rfl, stays_of_waits hwired hp has hwaits] at hdestroyed
    cases hdestroyed
  · exact hhas

theorem event (h : Parted s) (hwired : Wired yaz conf s)
    (hp : s.table.packages.lookup p = some ⟨package, .inside a⟩) {as : Assoc}
    (has : s.table.assocs.lookup a = some as) (hwaits : (s.works p).io.waits = true)
    (hwaiting : (s.conns a).waiting = true) {e : Event}
    {r : Conn OtherInfo ρ × (Work OtherInfo ρ → Work OtherInfo ρ)}
    (hevent : (s.conns a).processEvent conf as.host e = some r) : Parted (s.notify a r) := by
  rw [hwired.notify_eq hp has hwaits hwaiting hevent]
  refine h.set_stays hwired.table hp has (stays_of_waits hwired hp has hwaits) ?_
  intro hclosed
  rw [(Conn.processEvent_undisturbed hevent).hasClosed]
  exact h.hasClosed_of_waits hwired hp has hwaits hclosed

theorem leave (h : Parted s) (hwired : Wired yaz conf s)
    (hp : s.table.packages.lookup p = some ⟨package, .inside a⟩) {as : Assoc}
    (has : s.table.assocs.lookup a = some as) (hwaits : (s.works p).io.waits = true) :
    Parted (s.set a p (package.leave yaz conf p (s.conns a) (s.works p))) := by
  refine h.set_stays hwired.table hp has (stays_of_waits hwired hp has hwaits) ?_
  intro hclosed
  exact hasClosed_leave.trans (h.hasClosed_of_waits hwired hp has hwaits hclosed)

theorem answer (h : Parted s) (a : Nat) (gdu : Answer ρ) :
    Parted { s with
      conns := Function.update s.conns a
        { s.conns a with exchange := (s.conns a).exchange.answer gdu } } := by
  have hsame : ∀ b, (Function.update s.conns a
      { s.conns a with exchange := (s.conns a).exchange.answer gdu } b).hasClosed =
        (s.conns b).hasClosed := by
    intro b
    by_cases hb : b = a
    · rw [hb, Function.update_self]
    · rw [Function.update_of_ne hb]
  refine ⟨h.starts, ?_, ?_, ?_⟩
  · intro b hb hgone
    have htold := h.gone b hb hgone
    show Told (Function.update s.conns a _ b)
    by_cases heq : b = a
    · subst heq
      rw [Function.update_self]
      exact htold
    · rw [Function.update_of_ne heq]
      exact htold
  · intro q package b as hq hbare hclosed
    show _ ∨ _ ∨ (Function.update s.conns a _ b).hasClosed = true
    rw [hsame]
    exact h.inside q package b as hq hbare hclosed
  · intro q package b as hq hbare hclosed
    show _ ∨ (Function.update s.conns a _ b).hasClosed = true ∨ _
    rw [hsame]
    exact h.served q package b as hq hbare hclosed

/-! ## Steps of the table -/

variable {t : State OtherInfo} {works : Nat → Work OtherInfo ρ}

/-- Packages that the step is not about stay as they are, when their Assocs do. -/
theorem others (h : Parted s) (hstarts : AllStart t)
    (hothers : ∀ q, q ≠ p → t.packages.lookup q = s.table.packages.lookup q)
    (hworks : ∀ q, q ≠ p → works q = s.works q)
    (hbare : ∀ q k b, q ≠ p → s.table.packages.lookup q = some k → k.pc.assoc = some b →
      t.bare b = s.table.bare b)
    (hgone : ∀ a, a < t.madeFor.length → (∀ as, t.bare a = some as → as.destroyed = true) →
      Told (s.conns a))
    (hinside : ∀ package a as, t.packages.lookup p = some ⟨package, .inside a⟩ →
      t.bare a = some as → package.closed = true →
        (works p).io = .entering ∨ as.destroyed = true ∨ (s.conns a).hasClosed = true)
    (hserved : ∀ package a as, t.packages.lookup p = some ⟨package, .served a⟩ →
      t.bare a = some as → package.closed = true →
        as.destroyed = true ∨ (s.conns a).hasClosed = true ∨ (works p).aborted = true) :
    Parted ⟨t, s.conns, works⟩ where
  starts := hstarts
  gone := hgone
  inside q package a as hq has hclosed := by
    by_cases hne : q = p
    · subst hne
      exact hinside package a as hq has hclosed
    · have hq' : s.table.packages.lookup q = _ := (hothers q hne).symm.trans hq
      show (works q).io = _ ∨ _
      rw [hworks q hne]
      exact h.inside q package a as hq' ((hbare q _ a hne hq' rfl).symm.trans has) hclosed
  served q package a as hq has hclosed := by
    by_cases hne : q = p
    · subst hne
      exact hserved package a as hq has hclosed
    · have hq' : s.table.packages.lookup q = _ := (hothers q hne).symm.trans hq
      show _ ∨ _ ∨ (works q).aborted = true
      rw [hworks q hne]
      exact h.served q package a as hq' ((hbare q _ a hne hq' rfl).symm.trans has) hclosed

/-- A connection is given up with a word, or after an error. -/
theorem told (h : Parted s) (hwired : Wired yaz conf s) {as : Assoc}
    (hp : s.table.packages.lookup p = some ⟨package, .served a⟩)
    (has : s.table.bare a = some as) (hmade : a < s.table.madeFor.length)
    (hover : as.destroyed = true ∨ package.closed = true) : Told (s.conns a) := by
  have hgone : as.destroyed = true → Told (s.conns a) := by
    intro hdestroyed
    refine h.gone a hmade ?_
    intro as' has'
    rw [has] at has'
    cases has'
    exact hdestroyed
  rcases hover with hdestroyed | hclosed
  · exact hgone hdestroyed
  · rcases h.served p package a as hp has hclosed with hdestroyed | hhas | haborted
    · exact hgone hdestroyed
    · exact .inr (.inr hhas)
    · have hnot : (s.works p).aborted ≠ false := by simp [haborted]
      cases (hwired.served p package a as hp has).1 with
      | destroyed hdestroyed _ _ => exact hgone hdestroyed
      | nothing _ _ _ hfalse => exact absurd hfalse hnot
      | aborted apdu reason _ _ hfailed _ _ =>
        rcases hfailed with hno | hwaits
        · exact .inl hno
        · exact .inr (.inl hwaits)
      | answered apdu gdu _ _ _ _ hfalse => exact absurd hfalse hnot
      | unanswered apdu _ _ _ _ hfalse => exact absurd hfalse hnot
      | forced _ _ _ hfalse => exact absurd hfalse hnot

/-- A package comes, waits, takes or makes an Assoc, or leaves. -/
theorem move (h : Parted s) (hwired : Wired yaz conf s) (hstarts : AllStart t)
    (hmoves : Moves s.table t p)
    (hothers : ∀ q, q ≠ p → t.packages.lookup q = s.table.packages.lookup q)
    (hnot : ∀ package a, s.table.packages.lookup p ≠ some ⟨package, .inside a⟩)
    (hworks : ∀ q, q ≠ p → works q = s.works q)
    (hfresh : s.table.held p = none → ∀ k, t.packages.lookup p = some k → Fresh (works p)) :
    Parted ⟨t, s.conns, works⟩ := by
  cases hmoves with
  | idle hheld hheld' hbare hmade =>
    have hnone : ∀ k a, t.packages.lookup p = some k → k.pc.assoc ≠ some a := by
      intro k a hk hassoc
      rw [State.held_of_lookup hk, hassoc] at hheld'
      cases hheld'
    refine h.others hstarts hothers hworks ?_ ?_ ?_ ?_
    · intro q k b _ _ _
      rw [hbare]
    · rw [hbare, hmade]
      exact h.gone
    · intro package a as hk
      exact absurd rfl (hnone _ a hk)
    · intro package a as hk
      exact absurd rfl (hnone _ a hk)
  | takes package a host destroyed hheld hp hmadeFor hfree hbare hmade =>
    refine h.others hstarts hothers hworks ?_ ?_ ?_ ?_
    · intro q k b _ hq hb
      obtain ⟨as, has, hinUse⟩ := hwired.table.bare_of_held ((State.held_of_lookup hq).trans hb)
      have hne : b ≠ a := by
        rintro rfl
        rw [hfree] at has
        cases has
        cases hinUse
      rw [hbare, Function.update_of_ne hne]
    · intro b hb hgone
      rw [hmade] at hb
      refine h.gone b hb ?_
      intro as has
      by_cases heq : b = a
      · have hdestroyed := hgone ⟨host, true, destroyed, 0⟩
          (by rw [hbare, heq, Function.update_self])
        rw [heq, hfree] at has
        cases has
        exact hdestroyed
      · refine hgone as ?_
        rw [hbare, Function.update_of_ne heq]
        exact has
    · intro package' b as hk _ _
      exact .inl (hfresh hheld _ hk).io
    · intro package' b as hk
      rw [hp] at hk
      cases hk
  | makes package otherInfo target hheld hrequest hp hbare hmade =>
    refine h.others hstarts hothers hworks ?_ ?_ ?_ ?_
    · intro q k b _ hq hb
      have hlt := (List.getElem?_eq_some_iff.mp (hwired.table.madeFor_of_held hq hb)).1
      rw [hbare, Function.update_of_ne hlt.ne]
    · intro b hb hgone
      have hne : b ≠ s.table.madeFor.length := by
        rintro rfl
        have hdestroyed := hgone ⟨target, true, false, 0⟩ (by rw [hbare, Function.update_self])
        cases hdestroyed
      rw [hmade, List.length_append, List.length_singleton] at hb
      refine h.gone b (by omega) ?_
      intro as has
      refine hgone as ?_
      rw [hbare, Function.update_of_ne hne]
      exact has
    · intro package' b as hk _ _
      exact .inl (hfresh hheld _ hk).io
    · intro package' b as hk
      rw [hp] at hk
      cases hk
  | finishes package a as aborted hp => exact absurd hp (hnot package a)
  | releases package a as left hp has hp' hleft hbare hmade =>
    have hheld : s.table.held p = some a := State.held_of_lookup hp
    refine h.others hstarts hothers hworks ?_ ?_ ?_ ?_
    · intro q k b hqp hq hb
      have hne := hwired.table.ne_of_held hheld ((State.held_of_lookup hq).trans hb) hqp
      rw [hbare, Function.update_of_ne hne]
    · intro b hb hgone
      rw [hmade] at hb
      by_cases heq : b = a
      · subst heq
        refine h.told hwired hp has hb ?_
        rcases hleft with ⟨-, hclosed⟩ | rfl
        · exact .inr hclosed
        · have hdestroyed := hgone _ (by rw [hbare, Function.update_self])
          simpa using hdestroyed
      · refine h.gone b hb ?_
        intro as' has'
        refine hgone as' ?_
        rw [hbare, Function.update_of_ne heq]
        exact has'
    · intro package' b as' hk
      rw [hp'] at hk
      cases hk
    · intro package' b as' hk
      rw [hp'] at hk
      cases hk

/-- `send_and_receive` returns. -/
theorem finish (h : Parted s) {a : Nat} {as : Assoc} (hstarts : AllStart (s.table.setPackage p
      ⟨package.sendAndReceive as (s.works p).aborted, .served a⟩))
    (hp : s.table.packages.lookup p = some ⟨package, .inside a⟩)
    (hio : (s.works p).io = .done) :
    Parted ⟨s.table.setPackage p
      ⟨package.sendAndReceive as (s.works p).aborted, .served a⟩, s.conns, s.works⟩ := by
  have hlookup : (s.table.setPackage p ⟨package.sendAndReceive as (s.works p).aborted,
      .served a⟩).packages.lookup p = some ⟨package.sendAndReceive as (s.works p).aborted,
        .served a⟩ := AList.lookup_insert _
  refine h.others hstarts (fun q hq => AList.lookup_insert_ne hq) (fun _ _ => rfl)
    (fun _ _ _ _ _ _ => rfl) h.gone ?_ ?_
  · intro package' b as' hk
    rw [hlookup] at hk
    cases hk
  · intro package' b as' hk has hclosed
    rw [hlookup] at hk
    cases hk
    cases haborted : (s.works p).aborted with
    | true => exact .inr (.inr rfl)
    | false =>
      have hopen : package.closed = true := by
        rw [haborted] at hclosed
        unfold Package.sendAndReceive at hclosed
        split at hclosed
        · exact hclosed
        · split at hclosed
          · simpa using hclosed
          · simpa using hclosed
          · exact hclosed
          · exact hclosed
      rcases h.inside p package a as' hp has hopen with hentering | hdestroyed | hhas
      · rw [hio] at hentering
        cases hentering
      · exact .inl hdestroyed
      · exact .inr (.inl hhas)

end Parted

section Runs

variable {yaz : Yaz OtherInfo} {rep : Rep} {conf : Settings} {s s' : St OtherInfo ρ}

theorem Parted.of_step (h : Parted s) (hwired : Wired yaz conf s)
    (hforce : conf.forceClose = true) {a : IoLabel OtherInfo ρ} (hpolite : Politely s a)
    (hstep : ioStep yaz rep conf s a = some s') : Parted s' := by
  obtain ⟨horderly, harrive⟩ := hpolite
  cases ioStep_moves hwired.fresh hstep with
  | table b hb htable =>
    have hmoves := (hwired.table.of_step yaz.oi rep (horderly.apart hb) htable.table).2
    have hstarts : AllStart s'.table := by
      refine h.starts.of_step yaz.oi rep ?_ htable.table
      rintro p package rfl
      cases a with
      | arrive p' package' origin =>
        cases hb
        exact harrive
      | wake p' => cases hb
      | timedWake p' inTime => cases hb
      | enter p' clientFails => cases hb
      | event p' e => cases hb
      | leave p' => cases hb
      | stop p' => cases hb
      | finish p' => cases hb
      | release p' => cases hb
      | answer assoc gdu => cases hb
    have hmoved := h.move hwired hstarts hmoves
      (fun q hq => lookup_of_step yaz.oi rep htable.table hq) htable.outside htable.others
      htable.fresh
    rw [← htable.conns] at hmoved
    exact hmoved
  | enter hp has hio => exact h.enter hwired hforce hp has hio _
  | event hp has hwaits hwaiting hevent => exact h.event hwired hp has hwaits hwaiting hevent
  | leave hp has hwaits _ => exact h.leave hwired hp has hwaits
  | stop => exact absurd horderly id
  | finish hp has hio htable =>
    refine h.finish (h.starts.of_step yaz.oi rep ?_ htable) hp hio
    intro p package heq
    cases heq
  | answer => exact h.answer _ _

end Runs

end Z3950Client
end Metaproxy
