import Metaproxy.Z3950Client.Stages

/-!
# Z3950Client.Answers

What goes over the connections of `z3950_client` while packages come, wait and go, when the targets
answer what they are asked, in turn and in any time, and no Assoc takes the place of another one
(`Orderly`).

* `packages_answered` — a package has the answer to its own request when it leaves, or its session
  is closed, or there was nothing to answer.
* `connection_history` — what is sent on a connection begins with an init, is of one session, is sent
  when the last has been answered, and ends with the close that is made for it, if there is one.
-/

namespace Metaproxy
namespace Z3950Client

open Lib

variable {OtherInfo ρ : Type*}

/-- The targets do not answer what they have not been asked, and waiting ends with an event. -/
def Orderly (s : St OtherInfo ρ) : IoLabel OtherInfo ρ → Prop
  | .timedWake p inTime => inTime = true → s.table.overwrites p = false
  | .answer assoc _ =>
    (s.conns assoc).exchange.answers.length < (s.conns assoc).exchange.asked.length
  | .stop _ => False
  | _ => True

instance decidableOrderly (s : St OtherInfo ρ) : ∀ a, Decidable (Orderly s a)
  | .timedWake p inTime => inferInstanceAs (Decidable (inTime = true → s.table.overwrites p = false))
  | .answer assoc _ => inferInstanceAs (Decidable
      ((s.conns assoc).exchange.answers.length < (s.conns assoc).exchange.asked.length))
  | .stop _ => isFalse id
  | .arrive _ _ _ => isTrue trivial
  | .wake _ => isTrue trivial
  | .enter _ _ => isTrue trivial
  | .event _ _ => isTrue trivial
  | .leave _ => isTrue trivial
  | .finish _ => isTrue trivial
  | .release _ => isTrue trivial

structure Wired (yaz : Yaz OtherInfo) (conf : Settings) (s : St OtherInfo ρ) : Prop where
  table : Exclusive s.table
  new : ∀ a, s.table.madeFor.length ≤ a → s.conns a = .new
  line : ∀ a, Line yaz s.table.madeFor[a]? (s.conns a)
  idle : ∀ a as, s.table.bare a = some as → as.inUse = false →
    as.destroyed = true ∨ Open (s.conns a)
  fresh : ∀ p k, s.table.packages.lookup p = some k → k.pc.assoc = none → Fresh (s.works p)
  inside : ∀ p package a as, s.table.packages.lookup p = some ⟨package, .inside a⟩ →
    s.table.bare a = some as →
      Works yaz conf as.host as.destroyed p package (s.conns a) (s.works p)
  served : ∀ p package a as, s.table.packages.lookup p = some ⟨package, .served a⟩ →
    s.table.bare a = some as →
      Served yaz conf as.host as.destroyed p package (s.conns a) (s.works p) ∧
        ((s.works p).aborted = true → package.closed = true)

/-! ## Packages and Assocs -/

namespace Exclusive

variable {s : State OtherInfo} {p q : Nat} {a : Nat}

theorem bare_of_held (h : Exclusive s) (hheld : s.held p = some a) :
    ∃ as, s.bare a = some as ∧ as.inUse = true :=
  Option.map_eq_some_iff.mp (h.pool.inUse p a hheld)

/-- An Assoc has one package at a time. -/
theorem ne_of_held (h : Exclusive s) (hp : s.held p = some a) {b : Nat}
    (hq : s.held q = some b) (hne : q ≠ p) : b ≠ a := by
  rintro rfl
  exact hne (h.pool.unique q p b hq hp)

theorem madeFor_of_held (h : Exclusive s) {k : Held OtherInfo}
    (hp : s.packages.lookup p = some k) (hassoc : k.pc.assoc = some a) :
    s.madeFor[a]? = some k.package.session := by
  obtain ⟨it, he⟩ := h.entry p k a hp hassoc
  exact h.owner _ _ he

end Exclusive

/-! ## Steps of `send_and_receive` -/

namespace Wired

variable {yaz : Yaz OtherInfo} {conf : Settings} {s : St OtherInfo ρ} {p a : Nat}
  {package : Package OtherInfo}

theorem start : Wired yaz conf (St.start : St OtherInfo ρ) where
  table := .start
  new _ _ := rfl
  line _ := .new _
  idle _ _ hbare := by cases hbare
  fresh _ _ hp := by cases hp
  inside _ _ _ _ hp := by cases hp
  served _ _ _ _ hp := by cases hp

/-- The package in `send_and_receive` goes on. -/
theorem set (h : Wired yaz conf s) (hp : s.table.packages.lookup p = some ⟨package, .inside a⟩)
    {c : Conn OtherInfo ρ} {w : Work OtherInfo ρ} (hline : Line yaz s.table.madeFor[a]? c)
    (hworks : ∀ as, s.table.bare a = some as →
      Works yaz conf as.host as.destroyed p package c w) : Wired yaz conf (s.set a p (c, w)) := by
  have hheld : s.table.held p = some a := State.held_of_lookup hp
  obtain ⟨as, hbare, hinUse⟩ := h.table.bare_of_held hheld
  have hmade := h.table.madeFor_of_held hp rfl
  have hother : ∀ q k b, q ≠ p → s.table.packages.lookup q = some k → k.pc.assoc = some b →
      (s.set a p (c, w)).conns b = s.conns b := by
    intro q k b hq hk hb
    exact Function.update_of_ne
      (h.table.ne_of_held hheld ((State.held_of_lookup hk).trans hb) hq) _ _
  have hwork : ∀ q, q ≠ p → (s.set a p (c, w)).works q = s.works q :=
    fun q hq => Function.update_of_ne hq _ _
  refine ⟨h.table, ?_, ?_, ?_, ?_, ?_, ?_⟩
  · intro b (hb : s.table.madeFor.length ≤ b)
    have hne : b ≠ a := by
      rintro rfl
      rw [List.getElem?_eq_none hb] at hmade
      cases hmade
    exact (Function.update_of_ne hne _ _).trans (h.new b hb)
  · intro b
    by_cases hb : b = a
    · subst hb
      show Line yaz _ (Function.update s.conns b c b)
      rw [Function.update_self]
      exact hline
    · show Line yaz _ (Function.update s.conns a c b)
      rw [Function.update_of_ne hb]
      exact h.line b
  · intro b as' (hbare' : s.table.bare b = some as') hfree
    have hne : b ≠ a := by
      rintro rfl
      rw [hbare] at hbare'
      cases hbare'
      rw [hinUse] at hfree
      cases hfree
    show _ ∨ Open (Function.update s.conns a c b)
    rw [Function.update_of_ne hne]
    exact h.idle b as' hbare' hfree
  · intro q k (hq : s.table.packages.lookup q = some k) hk
    have hne : q ≠ p := by
      rintro rfl
      rw [hp] at hq
      cases hq
      cases hk
    rw [hwork q hne]
    exact h.fresh q k hq hk
  · intro q package' b as' (hq : s.table.packages.lookup q = _) hbare'
    by_cases hne : q = p
    · subst hne
      rw [hp] at hq
      cases hq
      show Works yaz conf _ _ q package (Function.update s.conns a c a)
        (Function.update s.works q w q)
      rw [Function.update_self, Function.update_self]
      exact hworks as' hbare'
    · rw [hwork q hne, hother q _ b hne hq rfl]
      exact h.inside q package' b as' hq hbare'
  · intro q package' b as' (hq : s.table.packages.lookup q = _) hbare'
    have hne : q ≠ p := by
      rintro rfl
      rw [hp] at hq
      cases hq
    rw [hwork q hne, hother q _ b hne hq rfl]
    exact h.served q package' b as' hq hbare'

theorem enter (h : Wired yaz conf s) (hp : s.table.packages.lookup p = some ⟨package, .inside a⟩)
    {as : Assoc} (has : s.table.assocs.lookup a = some as) (hio : (s.works p).io = .entering)
    (clientFails : Bool) :
    Wired yaz conf (s.set a p (
      if as.destroyed then (s.conns a, { s.works p with io := .done })
      else package.enter yaz conf p clientFails (s.conns a) (s.works p))) := by
  have hbare := State.bare_of_lookup has
  have hworks := h.inside p package a _ hp hbare
  have hfresh : Fresh (s.works p) ∧ (as.destroyed = true ∨ Open (s.conns a) ∨
      Blank (s.conns a) ∧ (s.conns a).connected = .no ∧
        ∃ otherInfo, package.request = some (.init otherInfo)) := by
    cases hworks with
    | entering hfresh hstart => exact ⟨hfresh, hstart⟩
    | connecting apdu hio' _ => rw [hio] at hio'; cases hio'
    | receiving forced apdu hio' _ => rw [hio] at hio'; cases hio'
    | done hio' _ => rw [hio] at hio'; cases hio'
  cases hdestroyed : as.destroyed with
  | true =>
    rw [if_pos rfl]
    refine h.set hp (h.line a) ?_
    intro as' has'
    rw [hbare] at has'
    cases has'
    exact .done rfl (.destroyed hdestroyed hfresh.1.response hfresh.1.aborted)
  | false =>
    rw [if_neg Bool.false_ne_true]
    refine h.set hp ?_ ?_
    · refine (h.line a).enter (h.table.madeFor_of_held hp rfl) ?_ clientFails
      intro hconnected
      rcases hfresh.2 with hbad | hopen | ⟨-, hno, -⟩
      · rw [hdestroyed] at hbad
        cases hbad
      · exact hopen
      · exact absurd hno hconnected
    · intro as' has'
      rw [hbare] at has'
      cases has'
      exact hworks.enter hio hdestroyed clientFails

/-- The connection works for the package that waits, or for none. -/
theorem notify_eq (h : Wired yaz conf s)
    (hp : s.table.packages.lookup p = some ⟨package, .inside a⟩) {as : Assoc}
    (has : s.table.assocs.lookup a = some as) (hwaits : (s.works p).io.waits = true)
    (hwaiting : (s.conns a).waiting = true) {e : Event}
    {r : Conn OtherInfo ρ × (Work OtherInfo ρ → Work OtherInfo ρ)}
    (hevent : (s.conns a).processEvent conf as.host e = some r) :
    s.notify a r = s.set a p (r.1, (s.conns a).noted r.2 (s.works p)) := by
  have hbare := State.bare_of_lookup has
  have hown := ((h.inside p package a _ hp hbare).event hwaits hwaiting (h.line a).inTurn
    hevent).2
  unfold St.notify St.set Conn.noted
  cases hpackage : (s.conns a).package with
  | none => simp
  | some q =>
    rw [hown q hpackage]
    rfl

theorem event (h : Wired yaz conf s) (hp : s.table.packages.lookup p = some ⟨package, .inside a⟩)
    {as : Assoc} (has : s.table.assocs.lookup a = some as) (hwaits : (s.works p).io.waits = true)
    (hwaiting : (s.conns a).waiting = true) {e : Event}
    {r : Conn OtherInfo ρ × (Work OtherInfo ρ → Work OtherInfo ρ)}
    (hevent : (s.conns a).processEvent conf as.host e = some r) : Wired yaz conf (s.notify a r) := by
  have hbare := State.bare_of_lookup has
  have hline := h.line a
  have hnext := ((h.inside p package a _ hp hbare).event hwaits hwaiting hline.inTurn hevent).1
  have hkept := Conn.processEvent_undisturbed hevent
  rw [h.notify_eq hp has hwaits hwaiting hevent]
  refine h.set hp (hline.congr hkept.sent hkept.asked (hkept.inTurn hline.inTurn)) ?_
  intro as' has'
  rw [hbare] at has'
  cases has'
  exact hnext

theorem leave (h : Wired yaz conf s) (hp : s.table.packages.lookup p = some ⟨package, .inside a⟩)
    {as : Assoc} (has : s.table.assocs.lookup a = some as) (hwaits : (s.works p).io.waits = true)
    (hover : (s.conns a).waiting = false ∨ as.destroyed = true) :
    Wired yaz conf (s.set a p (package.leave yaz conf p (s.conns a) (s.works p))) := by
  have hbare := State.bare_of_lookup has
  have hworks := h.inside p package a _ hp hbare
  refine h.set hp ((h.line a).leave (h.table.madeFor_of_held hp rfl) hworks) ?_
  intro as' has'
  rw [hbare] at has'
  cases has'
  exact hworks.leave hwaits hover

theorem answer (h : Wired yaz conf s) (a : Nat) (gdu : Answer ρ)
    (hlt : (s.conns a).exchange.answers.length < (s.conns a).exchange.asked.length) :
    Wired yaz conf { s with
      conns := Function.update s.conns a
        { s.conns a with exchange := (s.conns a).exchange.answer gdu } } := by
  have hturn := (h.line a).inTurn
  refine ⟨h.table, ?_, ?_, ?_, h.fresh, ?_, ?_⟩
  · intro b hb
    have hne : b ≠ a := by
      rintro rfl
      rw [h.new b hb] at hlt
      cases hlt
    exact (Function.update_of_ne hne _ _).trans (h.new b hb)
  · intro b
    by_cases hb : b = a
    · subst hb
      show Line yaz _ (Function.update s.conns b _ b)
      rw [Function.update_self]
      exact (h.line b).congr rfl rfl (hturn.answer hlt gdu)
    · show Line yaz _ (Function.update s.conns a _ b)
      rw [Function.update_of_ne hb]
      exact h.line b
  · intro b as hbare hfree
    show _ ∨ Open (Function.update s.conns a _ b)
    rcases h.idle b as hbare hfree with hdestroyed | hopen
    · exact .inl hdestroyed
    · have hne : b ≠ a := by
        rintro rfl
        exact hopen.not_answer hturn hlt
      rw [Function.update_of_ne hne]
      exact .inr hopen
  · intro q package b as hq hbare
    have hworks := h.inside q package b as hq hbare
    show Works yaz conf _ _ q package (Function.update s.conns a _ b) _
    by_cases hb : b = a
    · subst hb
      rw [Function.update_self]
      exact hworks.answer hturn hlt gdu
    · rw [Function.update_of_ne hb]
      exact hworks
  · intro q package b as hq hbare
    have hserved := h.served q package b as hq hbare
    show Served yaz conf _ _ q package (Function.update s.conns a _ b) _ ∧ _
    by_cases hb : b = a
    · subst hb
      rw [Function.update_self]
      exact ⟨hserved.1.answer hturn hlt gdu, hserved.2⟩
    · rw [Function.update_of_ne hb]
      exact hserved

/-! ## Steps of the table -/

variable {t : State OtherInfo} {works : Nat → Work OtherInfo ρ}

/-- Packages that the step is not about stay as they are, when their Assocs do. -/
theorem others (h : Wired yaz conf s) (hexclusive : Exclusive t)
    (hothers : ∀ q, q ≠ p → t.packages.lookup q = s.table.packages.lookup q)
    (hworks : ∀ q, q ≠ p → works q = s.works q)
    (hbare : ∀ q k b, q ≠ p → s.table.packages.lookup q = some k → k.pc.assoc = some b →
      t.bare b = s.table.bare b)
    (hnew : ∀ a, t.madeFor.length ≤ a → s.table.madeFor.length ≤ a)
    (hline : ∀ a, Line yaz t.madeFor[a]? (s.conns a))
    (hidle : ∀ a as, t.bare a = some as → as.inUse = false → as.destroyed = true ∨
      Open (s.conns a))
    (hfresh : ∀ k, t.packages.lookup p = some k → k.pc.assoc = none → Fresh (works p))
    (hinside : ∀ package a as, t.packages.lookup p = some ⟨package, .inside a⟩ →
      t.bare a = some as →
        Works yaz conf as.host as.destroyed p package (s.conns a) (works p))
    (hserved : ∀ package a as, t.packages.lookup p = some ⟨package, .served a⟩ →
      t.bare a = some as →
        Served yaz conf as.host as.destroyed p package (s.conns a) (works p) ∧
          ((works p).aborted = true → package.closed = true)) :
    Wired yaz conf ⟨t, s.conns, works⟩ where
  table := hexclusive
  new a ha := h.new a (hnew a ha)
  line := hline
  idle := hidle
  fresh q k hq hk := by
    by_cases hne : q = p
    · subst hne
      exact hfresh k hq hk
    · have hq' : s.table.packages.lookup q = some k := (hothers q hne).symm.trans hq
      show Fresh (works q)
      rw [hworks q hne]
      exact h.fresh q k hq' hk
  inside q package a as hq has := by
    by_cases hne : q = p
    · subst hne
      exact hinside package a as hq has
    · have hq' : s.table.packages.lookup q = _ := (hothers q hne).symm.trans hq
      show Works yaz conf _ _ q package _ (works q)
      rw [hworks q hne]
      exact h.inside q package a as hq' ((hbare q _ a hne hq' rfl).symm.trans has)
  served q package a as hq has := by
    by_cases hne : q = p
    · subst hne
      exact hserved package a as hq has
    · have hq' : s.table.packages.lookup q = _ := (hothers q hne).symm.trans hq
      show Served yaz conf _ _ q package _ (works q) ∧ ((works q).aborted = true → _)
      rw [hworks q hne]
      exact h.served q package a as hq' ((hbare q _ a hne hq' rfl).symm.trans has)

/-- A package comes, waits, takes or makes an Assoc, or leaves. -/
theorem move (h : Wired yaz conf s) (hexclusive : Exclusive t) (hmoves : Moves s.table t p)
    (hothers : ∀ q, q ≠ p → t.packages.lookup q = s.table.packages.lookup q)
    (hnot : ∀ package a, s.table.packages.lookup p ≠ some ⟨package, .inside a⟩)
    (hworks : ∀ q, q ≠ p → works q = s.works q)
    (hfresh : s.table.held p = none → ∀ k, t.packages.lookup p = some k → Fresh (works p)) :
    Wired yaz conf ⟨t, s.conns, works⟩ := by
  cases hmoves with
  | idle hheld hheld' hbare hmade =>
    have hnone : ∀ k a, t.packages.lookup p = some k → k.pc.assoc ≠ some a := by
      intro k a hk hassoc
      rw [State.held_of_lookup hk, hassoc] at hheld'
      cases hheld'
    refine h.others hexclusive hothers hworks ?_ ?_ ?_ ?_ ?_ ?_ ?_
    · intro q k b _ _ _
      rw [hbare]
    · intro a ha
      rw [← hmade]
      exact ha
    · rw [hmade]
      exact h.line
    · rw [hbare]
      exact h.idle
    · intro k hk _
      exact hfresh hheld k hk
    · intro package a as hk
      exact absurd rfl (hnone _ a hk)
    · intro package a as hk
      exact absurd rfl (hnone _ a hk)
  | takes package a host destroyed hheld hp hmadeFor hfree hbare hmade =>
    have hne : ∀ q k b, q ≠ p → s.table.packages.lookup q = some k → k.pc.assoc = some b →
        b ≠ a := by
      rintro q k b _ hq hb rfl
      obtain ⟨as, has, hinUse⟩ := h.table.bare_of_held ((State.held_of_lookup hq).trans hb)
      rw [hfree] at has
      cases has
      cases hinUse
    refine h.others hexclusive hothers hworks ?_ ?_ ?_ ?_ ?_ ?_ ?_
    · intro q k b hqp hq hb
      rw [hbare, Function.update_of_ne (hne q k b hqp hq hb)]
    · intro b hb
      rw [← hmade]
      exact hb
    · rw [hmade]
      exact h.line
    · intro b as has hinUse
      rw [hbare] at has
      by_cases hb : b = a
      · rw [hb, Function.update_self] at has
        cases has
        cases hinUse
      · rw [Function.update_of_ne hb] at has
        exact h.idle b as has hinUse
    · intro k hk _
      exact hfresh hheld k hk
    · intro package' b as hk has
      have hstart := h.idle a _ hfree rfl
      rw [hp] at hk
      cases hk
      rw [hbare, Function.update_self] at has
      cases has
      refine .entering (hfresh hheld _ hp) ?_
      rcases hstart with hdestroyed | hopen
      · exact .inl hdestroyed
      · exact .inr (.inl hopen)
    · intro package' b as hk
      rw [hp] at hk
      cases hk
  | makes package otherInfo target hheld hrequest hp hbare hmade =>
    have hnew := h.new s.table.madeFor.length (Nat.le_refl _)
    have hlt : ∀ b as, s.table.bare b = some as → b < s.table.madeFor.length := by
      intro b as has
      obtain ⟨as', has', -⟩ := Option.map_eq_some_iff.mp has
      exact h.table.made b as' has'
    refine h.others hexclusive hothers hworks ?_ ?_ ?_ ?_ ?_ ?_ ?_
    · intro q k b _ hq hb
      obtain ⟨as, has, -⟩ := h.table.bare_of_held ((State.held_of_lookup hq).trans hb)
      rw [hbare, Function.update_of_ne (hlt b as has).ne]
    · intro b hb
      rw [hmade, List.length_append] at hb
      exact Nat.le_of_succ_le hb
    · intro b
      rcases Nat.lt_or_ge b s.table.madeFor.length with hb | hb
      · rw [hmade, List.getElem?_append_left hb]
        exact h.line b
      · rw [h.new b hb]
        exact .new _
    · intro b as has hinUse
      rw [hbare] at has
      by_cases hb : b = s.table.madeFor.length
      · rw [hb, Function.update_self] at has
        cases has
        cases hinUse
      · rw [Function.update_of_ne hb] at has
        exact h.idle b as has hinUse
    · intro k hk _
      exact hfresh hheld k hk
    · intro package' b as hk has
      rw [hp] at hk
      cases hk
      rw [hbare, Function.update_self] at has
      cases has
      rw [hnew]
      exact .entering (hfresh hheld _ hp) (.inr (.inr ⟨⟨rfl, rfl⟩, rfl, otherInfo, hrequest⟩))
    · intro package' b as hk
      rw [hp] at hk
      cases hk
  | finishes package a as aborted hp => exact absurd hp (hnot package a)
  | releases package a as left hp has hp' hleft hbare hmade =>
    have hheld : s.table.held p = some a := State.held_of_lookup hp
    have hserved := h.served p package a as hp has
    refine h.others hexclusive hothers hworks ?_ ?_ ?_ ?_ ?_ ?_ ?_
    · intro q k b hqp hq hb
      have hne := h.table.ne_of_held hheld ((State.held_of_lookup hq).trans hb) hqp
      rw [hbare, Function.update_of_ne hne]
    · intro b hb
      rw [← hmade]
      exact hb
    · rw [hmade]
      exact h.line
    · intro b as' has' hinUse
      rw [hbare] at has'
      by_cases hb : b = a
      · rw [hb, Function.update_self] at has'
        rcases hleft with ⟨rfl, -⟩ | rfl
        · cases has'
        · cases has'
          rw [hb]
          exact hserved.1.leaves_open hserved.2
      · rw [Function.update_of_ne hb] at has'
        exact h.idle b as' has' hinUse
    · intro k hk
      rw [hp'] at hk
      cases hk
    · intro package' b as' hk
      rw [hp'] at hk
      cases hk
    · intro package' b as' hk
      rw [hp'] at hk
      cases hk

/-- `send_and_receive` returns. -/
theorem finish (h : Wired yaz conf s) (hp : s.table.packages.lookup p = some ⟨package, .inside a⟩)
    {as : Assoc} (has : s.table.assocs.lookup a = some as) (hio : (s.works p).io = .done) :
    Wired yaz conf ⟨s.table.setPackage p
      ⟨package.sendAndReceive as (s.works p).aborted, .served a⟩, s.conns, s.works⟩ := by
  have hbare := State.bare_of_lookup has
  have hserved : Served yaz conf as.host as.destroyed p package (s.conns a) (s.works p) := by
    cases h.inside p package a _ hp hbare with
    | entering hfresh _ => rw [hfresh.io] at hio; cases hio
    | connecting apdu hio' _ => rw [hio] at hio'; cases hio'
    | receiving forced apdu hio' _ => rw [hio] at hio'; cases hio'
    | done _ hserved => exact hserved
  have hlookup : (s.table.setPackage p ⟨package.sendAndReceive as (s.works p).aborted,
      .served a⟩).packages.lookup p = some ⟨package.sendAndReceive as (s.works p).aborted,
        .served a⟩ := AList.lookup_insert _
  refine h.others (h.table.sendAndReceive hp has _).1 (fun q hq => AList.lookup_insert_ne hq)
    (fun _ _ => rfl) (fun _ _ _ _ _ _ => rfl) (fun _ hb => hb) h.line h.idle ?_ ?_ ?_
  · intro k hk hassoc
    rw [hlookup] at hk
    cases hk
    cases hassoc
  · intro package' b as' hk
    rw [hlookup] at hk
    cases hk
  · intro package' b as' hk has'
    rw [hlookup] at hk
    cases hk
    have heq : s.table.bare a = some as' := has'
    rw [hbare] at heq
    cases heq
    exact hserved.sendAndReceive

end Wired

theorem St.inside_eq_some {s : St OtherInfo ρ} {p a : Nat} {package : Package OtherInfo}
    {as : Assoc} (h : s.inside p = some (package, a, as)) :
    s.table.packages.lookup p = some ⟨package, .inside a⟩ ∧
      s.table.assocs.lookup a = some as := by
  unfold St.inside at h
  split at h
  · rename_i package' a' hp
    obtain ⟨as', has, heq⟩ := Option.map_eq_some_iff.mp h
    cases heq
    exact ⟨hp, has⟩
  · cases h

section Runs

variable {yaz : Yaz OtherInfo} {rep : Rep} {conf : Settings} {s s' : St OtherInfo ρ}
  {a : IoLabel OtherInfo ρ}

/-! ## What a step can do -/

/-- A step of the table whose package is not in `send_and_receive`. -/
structure TableStep (yaz : Yaz OtherInfo) (rep : Rep) (s s' : St OtherInfo ρ)
    (b : Label OtherInfo) : Prop where
  table : step yaz.oi rep s.table b = some s'.table
  conns : s'.conns = s.conns
  others : ∀ q, q ≠ b.package → s'.works q = s.works q
  outside : ∀ package assoc, s.table.packages.lookup b.package ≠ some ⟨package, .inside assoc⟩
  fresh : s.table.held b.package = none → ∀ k, s'.table.packages.lookup b.package = some k →
    Fresh (s'.works b.package)

inductive IoMoves (yaz : Yaz OtherInfo) (rep : Rep) (conf : Settings) (s : St OtherInfo ρ) :
    IoLabel OtherInfo ρ → St OtherInfo ρ → Prop where
  | table {a : IoLabel OtherInfo ρ} {s' : St OtherInfo ρ} (b : Label OtherInfo) :
      a.table? s = some b → TableStep yaz rep s s' b → IoMoves yaz rep conf s a s'
  | enter {p assoc : Nat} {package : Package OtherInfo} {as : Assoc} {clientFails : Bool} :
      s.table.packages.lookup p = some ⟨package, .inside assoc⟩ →
      s.table.assocs.lookup assoc = some as → (s.works p).io = .entering →
      IoMoves yaz rep conf s (.enter p clientFails) (s.set assoc p (
        if as.destroyed then (s.conns assoc, { s.works p with io := .done })
        else package.enter yaz conf p clientFails (s.conns assoc) (s.works p)))
  | event {p assoc : Nat} {package : Package OtherInfo} {as : Assoc} {e : Event}
      {r : Conn OtherInfo ρ × (Work OtherInfo ρ → Work OtherInfo ρ)} :
      s.table.packages.lookup p = some ⟨package, .inside assoc⟩ →
      s.table.assocs.lookup assoc = some as → (s.works p).io.waits = true →
      (s.conns assoc).waiting = true → (s.conns assoc).processEvent conf as.host e = some r →
      IoMoves yaz rep conf s (.event p e) (s.notify assoc r)
  | leave {p assoc : Nat} {package : Package OtherInfo} {as : Assoc} :
      s.table.packages.lookup p = some ⟨package, .inside assoc⟩ →
      s.table.assocs.lookup assoc = some as → (s.works p).io.waits = true →
      (s.conns assoc).waiting = false ∨ as.destroyed = true →
      IoMoves yaz rep conf s (.leave p)
        (s.set assoc p (package.leave yaz conf p (s.conns assoc) (s.works p)))
  | stop {p : Nat} {s' : St OtherInfo ρ} : IoMoves yaz rep conf s (.stop p) s'
  | finish {p assoc : Nat} {package : Package OtherInfo} {as : Assoc} :
      s.table.packages.lookup p = some ⟨package, .inside assoc⟩ →
      s.table.assocs.lookup assoc = some as → (s.works p).io = .done →
      step yaz.oi rep s.table (.sendAndReceive p (s.works p).aborted) =
        some (s.table.setPackage p
          ⟨package.sendAndReceive as (s.works p).aborted, .served assoc⟩) →
      IoMoves yaz rep conf s (.finish p) ⟨s.table.setPackage p
        ⟨package.sendAndReceive as (s.works p).aborted, .served assoc⟩, s.conns, s.works⟩
  | answer {assoc : Nat} {gdu : Answer ρ} :
      IoMoves yaz rep conf s (.answer assoc gdu) { s with
        conns := Function.update s.conns assoc
          { s.conns assoc with exchange := (s.conns assoc).exchange.answer gdu } }

/-- The package of a step of the table has not been worked for. -/
theorem TableStep.of_lookup {t : State OtherInfo} {b : Label OtherInfo}
    (hstep : step yaz.oi rep s.table b = some t) {k : Held OtherInfo}
    (hp : s.table.packages.lookup b.package = some k)
    (hk : ∀ assoc, k.pc ≠ .inside assoc)
    (hfresh : k.pc.assoc = none → Fresh (s.works b.package)) :
    TableStep yaz rep s { s with table := t } b where
  table := hstep
  conns := rfl
  others _ _ := rfl
  outside package assoc hp' := by
    rw [hp] at hp'
    cases hp'
    exact hk assoc rfl
  fresh hheld _ _ := by
    rw [State.held_of_lookup hp] at hheld
    exact hfresh hheld

theorem ioStep_moves
    (hfresh : ∀ p k, s.table.packages.lookup p = some k → k.pc.assoc = none → Fresh (s.works p))
    (h : ioStep yaz rep conf s a = some s') : IoMoves yaz rep conf s a s' := by
  cases a with
  | arrive p package origin =>
    obtain ⟨t, htable, rfl⟩ := Option.map_eq_some_iff.mp h
    have hnone : s.table.packages.lookup p = none := by
      rw [step] at htable
      split at htable
      · cases htable
      · assumption
    refine .table (.arrive p package) rfl ⟨htable, rfl, ?_, ?_, ?_⟩
    · intro q hq
      exact Function.update_of_ne hq _ _
    · intro package' assoc (hp : s.table.packages.lookup p = _)
      rw [hnone] at hp
      cases hp
    · intro _ k _
      show Fresh (Function.update s.works p _ p)
      rw [Function.update_self]
      exact ⟨rfl, rfl, rfl⟩
  | wake p =>
    obtain ⟨t, htable, rfl⟩ := Option.map_eq_some_iff.mp h
    obtain ⟨package, it, hp⟩ : ∃ package it,
        s.table.packages.lookup p = some ⟨package, .waiting it⟩ := by
      rw [step] at htable
      split at htable
      · exact ⟨_, _, by assumption⟩
      · cases htable
    exact .table (.wake p) rfl (.of_lookup htable hp (fun _ hpc => by cases hpc)
      fun hassoc => hfresh p _ hp hassoc)
  | timedWake p inTime =>
    obtain ⟨t, htable, rfl⟩ := Option.map_eq_some_iff.mp h
    obtain ⟨package, target, maxSockets, hp⟩ : ∃ package target maxSockets,
        s.table.packages.lookup p = some ⟨package, .timed target maxSockets⟩ := by
      rw [step] at htable
      split at htable
      · exact ⟨_, _, _, by assumption⟩
      · cases htable
    exact .table (.timedWake p inTime) rfl (.of_lookup htable hp (fun _ hpc => by cases hpc)
      fun hassoc => hfresh p _ hp hassoc)
  | release p =>
    obtain ⟨t, htable, rfl⟩ := Option.map_eq_some_iff.mp h
    obtain ⟨package, assoc, hp⟩ : ∃ package assoc,
        s.table.packages.lookup p = some ⟨package, .served assoc⟩ := by
      rw [step] at htable
      split at htable
      · exact ⟨_, _, by assumption⟩
      · cases htable
    exact .table (.release p) rfl (.of_lookup htable hp (fun _ hpc => by cases hpc)
      fun hassoc => hfresh p _ hp hassoc)
  | enter p clientFails =>
    obtain ⟨⟨package, assoc, as⟩, hinside, h⟩ := Option.bind_eq_some_iff.mp h
    obtain ⟨hp, has⟩ := St.inside_eq_some hinside
    dsimp only at h
    split at h
    · rename_i hio
      cases h
      exact .enter hp has hio
    · cases h
  | event p e =>
    obtain ⟨⟨package, assoc, as⟩, hinside, h⟩ := Option.bind_eq_some_iff.mp h
    obtain ⟨hp, has⟩ := St.inside_eq_some hinside
    dsimp only at h
    split at h
    · rename_i hcond
      obtain ⟨⟨hwaits, hwaiting⟩, -⟩ : ((s.works p).io.waits = true ∧
          (s.conns assoc).waiting = true) ∧ as.destroyed = false := by
        simpa using hcond
      obtain ⟨r, hevent, rfl⟩ := Option.map_eq_some_iff.mp h
      exact .event hp has hwaits hwaiting hevent
    · cases h
  | leave p =>
    obtain ⟨⟨package, assoc, as⟩, hinside, h⟩ := Option.bind_eq_some_iff.mp h
    obtain ⟨hp, has⟩ := St.inside_eq_some hinside
    dsimp only at h
    split at h
    · rename_i hcond
      obtain ⟨hwaits, hover⟩ : (s.works p).io.waits = true ∧
          ((s.conns assoc).waiting = false ∨ as.destroyed = true) := by
        simpa using hcond
      cases h
      exact .leave hp has hwaits hover
    · cases h
  | stop p => exact .stop
  | finish p =>
    rw [ioStep] at h
    split at h
    · rename_i hio
      obtain ⟨t, htable, rfl⟩ := Option.map_eq_some_iff.mp h
      have hmove := htable
      rw [step] at htable
      split at htable
      · rename_i package assoc hp
        obtain ⟨as, has, rfl⟩ := Option.map_eq_some_iff.mp htable
        exact .finish hp has hio hmove
      · cases htable
    · cases h
  | answer assoc gdu =>
    rw [ioStep] at h
    split at h
    · cases h
    · cases h
      exact .answer

/-- An orderly step is one of the table that leaves the Assocs apart. -/
theorem Orderly.apart {b : Label OtherInfo} (h : Orderly s a) (hb : a.table? s = some b) :
    Apart s.table b := by
  cases a with
  | arrive p package origin => cases hb; trivial
  | wake p => cases hb; trivial
  | timedWake p inTime => cases hb; exact h
  | enter p clientFails => cases hb
  | event p e => cases hb
  | leave p => cases hb
  | stop p => cases hb
  | finish p => cases hb; trivial
  | release p => cases hb; trivial
  | answer assoc gdu => cases hb

/-! ## Runs -/

theorem Wired.of_step (h : Wired yaz conf s) (horderly : Orderly s a)
    (hstep : ioStep yaz rep conf s a = some s') : Wired yaz conf s' := by
  cases ioStep_moves h.fresh hstep with
  | table b hb htable =>
    obtain ⟨hexclusive, hmoves⟩ := h.table.of_step yaz.oi rep (horderly.apart hb) htable.table
    have hmoved := h.move hexclusive hmoves
      (fun q hq => lookup_of_step yaz.oi rep htable.table hq) htable.outside htable.others
      htable.fresh
    rw [← htable.conns] at hmoved
    exact hmoved
  | enter hp has hio => exact h.enter hp has hio _
  | event hp has hwaits hwaiting hevent => exact h.event hp has hwaits hwaiting hevent
  | leave hp has hwaits hover => exact h.leave hp has hwaits hover
  | stop => exact absurd horderly id
  | finish hp has hio _ => exact h.finish hp has hio
  | answer => exact h.answer _ _ horderly

theorem Wired.of_reach (h : Reach (ioStep yaz rep conf) ioInit Orderly s) : Wired yaz conf s := by
  refine Reach.invariant ?_ ?_ h
  · rintro s rfl
    exact .start
  · intro s a s' hwired horderly hstep
    exact hwired.of_step horderly hstep

/-- What a package has when it leaves. -/
def Got (yaz : Yaz OtherInfo) (conf : Settings) (as : Assoc) (p : Nat)
    (package : Package OtherInfo) (c : Conn OtherInfo ρ) (w : Work OtherInfo ρ) : Prop :=
  match w.response with
  | some (.answer gdu) => ∃ apdu answer, package.apdu? false = some apdu ∧
      c.exchange.Last (package.sends yaz conf w.origin p apdu) answer ∧ gdu = answer.fixup as.host
  | some (.close _) => package.closed = true
  | none => as.destroyed = true ∨ package.apdu? false = none ∨
      (∃ apdu, package.apdu? false = some apdu ∧ apdu.isAnswered yaz = false) ∨
      package.closed = true ∧ c.hasClosed = true

theorem Served.got (as : Assoc) {p : Nat} {package : Package OtherInfo} {c : Conn OtherInfo ρ}
    {w : Work OtherInfo ρ} (h : Served yaz conf as.host as.destroyed p package c w)
    (hclosed : w.aborted = true → package.closed = true) : Got yaz conf as p package c w := by
  unfold Got
  cases h with
  | destroyed hdestroyed hresponse _ =>
    rw [hresponse]
    exact .inl hdestroyed
  | nothing happdu _ hresponse _ =>
    rw [hresponse]
    exact .inr (.inl happdu)
  | aborted apdu reason _ _ _ hresponse haborted =>
    rw [hresponse]
    exact hclosed haborted
  | answered apdu answer happdu _ hlast hresponse _ =>
    rw [hresponse]
    exact ⟨apdu, answer, happdu, hlast, rfl⟩
  | unanswered apdu happdu hanswered _ hresponse _ =>
    rw [hresponse]
    exact .inr (.inr (.inl ⟨apdu, happdu, hanswered⟩))
  | forced hclosed' hhas hresponse _ =>
    rw [hresponse]
    exact .inr (.inr (.inr ⟨hclosed', hhas⟩))

/-- What has been sent on a connection, from its first day on. -/
theorem connection_history (h : Reach (ioStep yaz rep conf) ioInit Orderly s) (a : Nat) :
    Line yaz s.table.madeFor[a]? (s.conns a) :=
  (Wired.of_reach h).line a

end Runs

/-! ## A run -/

/-- Requests are known by their tags; nothing is said about clients. -/
def plainYaz : Yaz (List YazOi.Unit) where
  oi := YazOi.units
  which encoding :=
    if encoding.take 2 = [191, 48] then .close
    else if encoding.take 2 = [191, 46] then .triggerResourceControlRequest
    else .other
  takeClientIp otherInfo := (none, otherInfo)
  setClientIp otherInfo _ := otherInfo
  hasCharSetNegotiation _ := false
  addProposal otherInfo _ := otherInfo

def closing : Settings := ⟨true, false, "", 10, 10, 30⟩

def anySocket : Rep := ⟨0, "", ""⟩

def requestOf (session : Nat) (encoding : List UInt8) : Package (List YazOi.Unit) :=
  ⟨session, false, 0, some (.other encoding)⟩

def accepted : Answer Nat := .init none []

def notFound : Answer Nat := .search ⟨0, 0, 0, false,
  some (.nonSurrogateDiagnostic ⟨.temporarySystemError, ['b', 'u', 's', 'y']⟩)⟩

/-- A package takes the connection of its session, and leaves it with an answer. -/
def exchanged (p assoc : Nat) (gdu : Answer Nat) : List (IoLabel (List YazOi.Unit) Nat) :=
  [.enter p false, .answer assoc gdu, .event p (.receive 0), .leave p, .finish p]

/-- Session 1 is opened, and searched while session 2 is opened. -/
def twoSessions : List (IoLabel (List YazOi.Unit) Nat) :=
  [.arrive 0 (initOf 1 "a") .new, .enter 0 false, .arrive 1 (requestOf 1 [7]) .new,
    .event 0 .timeout, .event 0 .connect, .leave 0, .arrive 2 (initOf 2 "b") .new, .enter 2 false,
    .answer 0 accepted, .event 0 (.receive 0), .leave 0, .finish 0, .release 0, .wake 1] ++
    exchanged 1 0 notFound

/-- Then session 1 is closed. -/
def oneClosed : List (IoLabel (List YazOi.Unit) Nat) :=
  twoSessions ++ [.release 1, .arrive 3 (closeOf 1) .new] ++ exchanged 3 0 (.other []) ++
    [.release 3]

theorem connection_history_oneClosed :
    ∃ s : St (List YazOi.Unit) Nat, (s.conns 0).sent.length = 3 ∧
      Line plainYaz s.table.madeFor[0]? (s.conns 0) := by
  have hok : RunOk (ioStep plainYaz anySocket closing) Orderly St.start oneClosed := by
    decide +kernel
  have hrun : (run (ioStep plainYaz anySocket closing) St.start oneClosed).any
      (fun s => (s.conns 0).sent.length = 3) = true := by
    decide +kernel
  obtain ⟨s, hreach, hs⟩ := Reach.exists_of_run ioInit_start hok hrun
  exact ⟨s, of_decide_eq_true hs, connection_history hreach 0⟩

end Z3950Client
end Metaproxy
