import Metaproxy.Lib.Pool
import Metaproxy.Z3950Client.Connections

/-!
# Z3950Client.Exclusive

What the packages do to the table, for any `max_sockets`, when no Assoc takes the place of another
one of its session (`Apart`): then each Assoc in use is held by one package, of the session that it
was made for (`Exclusive`), and a step of the table is one of a few (`Moves`).
-/

namespace Metaproxy
namespace Z3950Client

open Lib

variable {OtherInfo : Type*}

/-- No Assoc takes the place of another one. -/
def Apart (s : State OtherInfo) : Label OtherInfo → Prop
  | .timedWake p inTime => inTime = true → s.overwrites p = false
  | _ => True

namespace State

/-- The Assoc that a package works with. -/
def held (s : State OtherInfo) (p : Nat) : Option Nat :=
  (s.packages.lookup p).bind fun k => k.pc.assoc

/-- An Assoc, but for the number of packages that wait for it. -/
def bare (s : State OtherInfo) (assoc : Nat) : Option Assoc :=
  (s.assocs.lookup assoc).map fun as => { as with queueLen := 0 }

def pool (s : State OtherInfo) : Pool Nat Nat where
  status assoc := (s.bare assoc).map Assoc.inUse
  holds := s.held

end State

structure Exclusive (s : State OtherInfo) : Prop where
  owner : ∀ session e, s.clients.lookup session = some e → s.madeFor[e.assoc]? = some session
  stored : ∀ session e, s.clients.lookup session = some e →
    ∃ as, s.assocs.lookup e.assoc = some as
  made : ∀ assoc as, s.assocs.lookup assoc = some as → assoc < s.madeFor.length
  entry : ∀ p k assoc, s.packages.lookup p = some k → k.pc.assoc = some assoc →
    ∃ it, s.clients.lookup k.package.session = some ⟨it, assoc⟩
  pool : s.pool.Sound
  timed : ∀ p package target maxSockets,
    s.packages.lookup p = some ⟨package, .timed target maxSockets⟩ →
      ∃ otherInfo, package.request = some (.init otherInfo)

/-- What a step does to the Assocs and to the one package that takes it. -/
inductive Moves (s s' : State OtherInfo) (p : Nat) : Prop where
  | idle : s.held p = none → s'.held p = none → s'.bare = s.bare → s'.madeFor = s.madeFor →
      Moves s s' p
  | takes (package : Package OtherInfo) (assoc : Nat) (host : String) (destroyed : Bool) :
      s.held p = none → s'.packages.lookup p = some ⟨package, .inside assoc⟩ →
      s.madeFor[assoc]? = some package.session →
      s.bare assoc = some ⟨host, false, destroyed, 0⟩ →
      s'.bare = Function.update s.bare assoc (some ⟨host, true, destroyed, 0⟩) →
      s'.madeFor = s.madeFor → Moves s s' p
  | makes (package : Package OtherInfo) (otherInfo : OtherInfo) (target : String) :
      s.held p = none → package.request = some (.init otherInfo) →
      s'.packages.lookup p = some ⟨package, .inside s.madeFor.length⟩ →
      s'.bare = Function.update s.bare s.madeFor.length (some ⟨target, true, false, 0⟩) →
      s'.madeFor = s.madeFor ++ [package.session] → Moves s s' p
  | finishes (package : Package OtherInfo) (assoc : Nat) (as : Assoc) (aborted : Bool) :
      s.packages.lookup p = some ⟨package, .inside assoc⟩ → s.assocs.lookup assoc = some as →
      s'.packages.lookup p = some ⟨package.sendAndReceive as aborted, .served assoc⟩ →
      s'.bare = s.bare → s'.madeFor = s.madeFor → Moves s s' p
  | releases (package : Package OtherInfo) (assoc : Nat) (as : Assoc) (left : Option Assoc) :
      s.packages.lookup p = some ⟨package, .served assoc⟩ → s.bare assoc = some as →
      s'.packages.lookup p = none →
      left = none ∧ package.closed = true ∨ left = some { as with
        inUse := false
        destroyed := as.destroyed || package.closed } →
      s'.bare = Function.update s.bare assoc left → s'.madeFor = s.madeFor → Moves s s' p

/-! ## Lookups -/

namespace State

variable {s : State OtherInfo} {p q : Nat} {k : Held OtherInfo}

theorem held_of_lookup (h : s.packages.lookup p = some k) : s.held p = k.pc.assoc := by
  rw [held, h]
  rfl

theorem held_of_none (h : s.packages.lookup p = none) : s.held p = none := by
  rw [held, h]
  rfl

theorem held_setPackage (s : State OtherInfo) (p : Nat) (k : Held OtherInfo) :
    (s.setPackage p k).held = Function.update s.held p k.pc.assoc := by
  funext q
  by_cases hq : q = p
  · subst hq
    rw [Function.update_self]
    exact held_of_lookup (AList.lookup_insert _)
  · rw [Function.update_of_ne hq]
    exact congrArg (Option.bind · _) (AList.lookup_insert_ne hq)

theorem held_drop (s : State OtherInfo) (p : Nat) :
    (s.drop p).held = Function.update s.held p none := by
  funext q
  by_cases hq : q = p
  · subst hq
    rw [Function.update_self]
    have hnone : (s.packages.erase q).lookup q = none := AList.lookup_erase q s.packages
    exact held_of_none hnone
  · rw [Function.update_of_ne hq]
    exact congrArg (Option.bind · _) (AList.lookup_erase_ne hq)

theorem bare_of_lookup {assoc : Nat} {as : Assoc} (h : s.assocs.lookup assoc = some as) :
    s.bare assoc = some { as with queueLen := 0 } := by
  rw [bare, h]
  rfl

theorem bare_setAssoc (s : State OtherInfo) (assoc : Nat) (as : Assoc) :
    (s.setAssoc assoc as).bare =
      Function.update s.bare assoc (some { as with queueLen := 0 }) := by
  funext b
  by_cases hb : b = assoc
  · subst hb
    rw [Function.update_self]
    exact congrArg (Option.map _) (AList.lookup_insert s.assocs)
  · rw [Function.update_of_ne hb]
    exact congrArg (Option.map _) (AList.lookup_insert_ne hb)

/-- Only the number of waiting packages is changed. -/
theorem bare_setAssoc_same {assoc : Nat} {as as' : Assoc} (h : s.assocs.lookup assoc = some as)
    (hsame : ({ as' with queueLen := 0 } : Assoc) = { as with queueLen := 0 }) :
    (s.setAssoc assoc as').bare = s.bare := by
  rw [bare_setAssoc, hsame]
  refine Function.update_eq_self_iff.mpr ?_
  rw [bare, h]
  rfl

theorem bare_newAssoc (s : State OtherInfo) (session : Nat) (target : String) :
    (s.newAssoc session target).bare =
      Function.update s.bare s.madeFor.length (some ⟨target, true, false, 0⟩) :=
  bare_setAssoc s s.madeFor.length ⟨target, true, false, 1⟩

theorem bare_deleteAssoc (s : State OtherInfo) (session assoc : Nat) (as : Assoc) :
    (s.deleteAssoc session assoc as).bare = Function.update s.bare assoc none := by
  funext b
  by_cases hb : b = assoc
  · subst hb
    rw [Function.update_self]
    exact congrArg (Option.map _) (AList.lookup_erase b s.assocs)
  · rw [Function.update_of_ne hb]
    exact congrArg (Option.map _) (AList.lookup_erase_ne hb)

theorem pool_congr {s' : State OtherInfo} (hheld : s'.held = s.held) (hbare : s'.bare = s.bare) :
    s'.pool = s.pool := by
  unfold pool
  rw [hheld, hbare]

theorem stored_of_bare {s' : State OtherInfo} {assoc : Nat}
    (hbare : s'.bare assoc = s.bare assoc) (h : ∃ as, s.assocs.lookup assoc = some as) :
    ∃ as, s'.assocs.lookup assoc = some as := by
  obtain ⟨as, has⟩ := h
  rw [bare, bare, has] at hbare
  obtain ⟨as', has', -⟩ := Option.map_eq_some_iff.mp hbare
  exact ⟨as', has'⟩

end State

/-! ## The operations -/

namespace Exclusive

variable {s s' : State OtherInfo} {p : Nat}

theorem lt_made (h : Exclusive s) {session : Nat} {e : Element}
    (he : s.clients.lookup session = some e) : e.assoc < s.madeFor.length :=
  (List.getElem?_eq_some_iff.mp (h.owner session e he)).1

theorem ne_assoc (h : Exclusive s) {session session' : Nat} {e e' : Element}
    (he : s.clients.lookup session = some e) (he' : s.clients.lookup session' = some e')
    (hne : session' ≠ session) : e'.assoc ≠ e.assoc := by
  intro heq
  have hmade := h.owner session e he
  have hmade' := h.owner session' e' he'
  rw [heq, hmade] at hmade'
  exact hne (Option.some.inj hmade').symm

/-- A package that works with an Assoc works with the one of its session, which is in use. -/
theorem find_of_assoc (h : Exclusive s) {k : Held OtherInfo} {assoc : Nat}
    (hp : s.packages.lookup p = some k) (hassoc : k.pc.assoc = some assoc) :
    ∃ it as, s.find k.package.session = some (⟨it, assoc⟩, as) ∧ as.inUse = true := by
  obtain ⟨it, he⟩ := h.entry p k assoc hp hassoc
  have hheld : s.held p = some assoc := (State.held_of_lookup hp).trans hassoc
  have hstatus := h.pool.inUse p assoc hheld
  obtain ⟨bare, hbare, hinUse⟩ := Option.map_eq_some_iff.mp hstatus
  obtain ⟨as, has, rfl⟩ := Option.map_eq_some_iff.mp hbare
  exact ⟨it, as, State.find_eq_some_iff.mpr ⟨he, has⟩, hinUse⟩

/-- The package at `p` changes, or leaves; the table is the same but for the numbers of packages
that wait. -/
theorem congr (h : Exclusive s) (hclients : s'.clients = s.clients) (hbare : s'.bare = s.bare)
    (hmade : s'.madeFor = s.madeFor)
    (hothers : ∀ q, q ≠ p → s'.packages.lookup q = s.packages.lookup q)
    (hheld : s'.held p = s.held p)
    (hentry : ∀ k assoc, s'.packages.lookup p = some k → k.pc.assoc = some assoc →
      ∃ it, s.clients.lookup k.package.session = some ⟨it, assoc⟩)
    (htimed : ∀ package target maxSockets,
      s'.packages.lookup p = some ⟨package, .timed target maxSockets⟩ →
        ∃ otherInfo, package.request = some (.init otherInfo)) : Exclusive s' where
  owner session e he := by
    rw [hmade]
    exact h.owner session e (hclients ▸ he)
  stored session e he :=
    State.stored_of_bare (congrFun hbare _) (h.stored session e (hclients ▸ he))
  made assoc as has := by
    obtain ⟨as', has'⟩ := State.stored_of_bare (s := s') (congrFun hbare assoc).symm ⟨as, has⟩
    rw [hmade]
    exact h.made assoc as' has'
  entry q k assoc hq hassoc := by
    rw [hclients]
    by_cases hqp : q = p
    · subst hqp
      exact hentry k assoc hq hassoc
    · rw [hothers q hqp] at hq
      exact h.entry q k assoc hq hassoc
  pool := by
    have hheld' : s'.held = s.held := by
      funext q
      by_cases hqp : q = p
      · rw [hqp, hheld]
      · rw [State.held, State.held, hothers q hqp]
    rw [State.pool_congr hheld' hbare]
    exact h.pool
  timed q package target maxSockets hq := by
    by_cases hqp : q = p
    · subst hqp
      exact htimed package target maxSockets hq
    · rw [hothers q hqp] at hq
      exact h.timed q package target maxSockets hq

theorem idle (h : Exclusive s) (hheld : s.held p = none) {k : Held OtherInfo}
    (hk : k.pc.assoc = none)
    (htimed : ∀ target maxSockets, k.pc = .timed target maxSockets →
      ∃ otherInfo, k.package.request = some (.init otherInfo)) :
    Exclusive (s.setPackage p k) ∧ Moves s (s.setPackage p k) p := by
  have hlookup : (s.setPackage p k).packages.lookup p = some k := AList.lookup_insert _
  have hheld' : (s.setPackage p k).held p = none := (State.held_of_lookup hlookup).trans hk
  refine ⟨h.congr (p := p) rfl rfl rfl (fun q hq => AList.lookup_insert_ne hq)
    (hheld'.trans hheld.symm) ?_ ?_, .idle hheld hheld' rfl rfl⟩
  · intro k' assoc hk' hassoc
    rw [hlookup] at hk'
    cases hk'
    rw [hk] at hassoc
    cases hassoc
  · intro package target maxSockets hk'
    rw [hlookup] at hk'
    cases hk'
    exact htimed target maxSockets rfl

theorem drop (h : Exclusive s) (hheld : s.held p = none) :
    Exclusive (s.drop p) ∧ Moves s (s.drop p) p := by
  have hlookup : (s.drop p).packages.lookup p = none := AList.lookup_erase p s.packages
  have hheld' := State.held_of_none hlookup
  refine ⟨h.congr (p := p) rfl rfl rfl (fun q hq => AList.lookup_erase_ne hq)
    (hheld'.trans hheld.symm) ?_ ?_, .idle hheld hheld' rfl rfl⟩
  · intro k assoc hk
    rw [hlookup] at hk
    cases hk
  · intro package target maxSockets hk
    rw [hlookup] at hk
    cases hk

/-- The queue of an Assoc changes. -/
theorem requeue (h : Exclusive s) {assoc : Nat} {as as' : Assoc}
    (has : s.assocs.lookup assoc = some as)
    (hsame : ({ as' with queueLen := 0 } : Assoc) = { as with queueLen := 0 }) :
    Exclusive (s.setAssoc assoc as') :=
  h.congr (p := 0) rfl (State.bare_setAssoc_same has hsame) rfl (fun _ _ => rfl) rfl
    (fun k assoc hk hassoc => h.entry 0 k assoc hk hassoc) (h.timed 0)

/-- The Assoc of a session that is not in use is taken. -/
theorem take (h : Exclusive s) {package : Package OtherInfo} {e : Element} {as as' : Assoc}
    (hfind : s.find package.session = some (e, as)) (hheld : s.held p = none)
    (hfree : as.inUse = false)
    (hbare : ({ as' with queueLen := 0 } : Assoc) = ⟨as.host, true, as.destroyed, 0⟩) :
    Exclusive ((s.setAssoc e.assoc as').setPackage p ⟨package, .inside e.assoc⟩) ∧
      Moves s ((s.setAssoc e.assoc as').setPackage p ⟨package, .inside e.assoc⟩) p := by
  obtain ⟨he, has⟩ := State.find_eq_some_iff.mp hfind
  have hset : (s.setAssoc e.assoc as').bare =
      Function.update s.bare e.assoc (some ⟨as.host, true, as.destroyed, 0⟩) := by
    rw [State.bare_setAssoc, hbare]
  have hold : s.bare e.assoc = some ⟨as.host, false, as.destroyed, 0⟩ := by
    rw [State.bare, has, ← hfree]
    rfl
  constructor
  · refine ⟨h.owner, ?_, ?_, ?_, ?_, ?_⟩
    · intro session e' he'
      by_cases heq : e'.assoc = e.assoc
      · exact ⟨as', by rw [heq]; exact AList.lookup_insert s.assocs⟩
      · obtain ⟨as1, has1⟩ := h.stored session e' he'
        exact ⟨as1, (AList.lookup_insert_ne heq).trans has1⟩
    · intro assoc as1 has1
      rcases Table.lookup_insert_iff.mp has1 with ⟨rfl, -⟩ | ⟨-, has1⟩
      · exact h.lt_made he
      · exact h.made assoc as1 has1
    · intro q k assoc hq hassoc
      rcases Table.lookup_insert_iff.mp hq with ⟨-, rfl⟩ | ⟨-, hq⟩
      · cases hassoc
        exact ⟨e.it, he⟩
      · exact h.entry q k assoc hq hassoc
    · have htake : ((s.setAssoc e.assoc as').setPackage p ⟨package, .inside e.assoc⟩).pool =
          s.pool.take p e.assoc := by
        unfold State.pool Pool.take
        rw [State.held_setPackage]
        congr 1
        funext b
        show ((s.setAssoc e.assoc as').bare b).map Assoc.inUse = _
        rw [hset]
        by_cases hb : b = e.assoc
        · rw [hb, Function.update_self, Function.update_self]
          rfl
        · rw [Function.update_of_ne hb, Function.update_of_ne hb]
      rw [htake]
      refine h.pool.take hheld ?_
      show (s.bare e.assoc).map Assoc.inUse ≠ some true
      rw [hold]
      simp
    · intro q package' target maxSockets hq
      rcases Table.lookup_insert_iff.mp hq with ⟨-, heq⟩ | ⟨-, hq⟩
      · cases heq
      · exact h.timed q package' target maxSockets hq
  · exact .takes package e.assoc as.host as.destroyed hheld (AList.lookup_insert _)
      (h.owner _ _ he) hold hset rfl

theorem takeAssoc (h : Exclusive s) {package : Package OtherInfo} {e : Element} {as as' : Assoc}
    (hfind : s.find package.session = some (e, as)) (hheld : s.held p = none)
    (hsame : ({ as' with queueLen := 0 } : Assoc) = { as with queueLen := 0 }) :
    Exclusive (State.settle p package (s.takeAssoc e as')) ∧
      Moves s (State.settle p package (s.takeAssoc e as')) p := by
  have has := (State.find_eq_some_iff.mp hfind).2
  obtain ⟨hhost, hinUse, hdestroyed⟩ : as'.host = as.host ∧ as'.inUse = as.inUse ∧
      as'.destroyed = as.destroyed := by
    simpa using hsame
  unfold State.takeAssoc
  split
  · refine ⟨((h.requeue has hsame).idle (k := ⟨package, .waiting e.it⟩) hheld rfl ?_).1, ?_⟩
    · intro target maxSockets hpc
      cases hpc
    · exact .idle hheld ((State.held_of_lookup (AList.lookup_insert _)).trans rfl)
        (State.bare_setAssoc_same has hsame) rfl
  · rename_i hfree
    refine h.take hfind hheld ?_ ?_
    · rw [← hinUse]
      exact Bool.eq_false_iff.mpr hfree
    · rw [← hhost, ← hdestroyed]

theorem newAssoc (h : Exclusive s) {package : Package OtherInfo} {otherInfo : OtherInfo}
    (target : String) (hrequest : package.request = some (.init otherInfo))
    (hnone : s.clients.lookup package.session = none) (hheld : s.held p = none) :
    Exclusive ((s.newAssoc package.session target).setPackage p
        ⟨package, .inside s.madeFor.length⟩) ∧
      Moves s ((s.newAssoc package.session target).setPackage p
        ⟨package, .inside s.madeFor.length⟩) p := by
  have hnew : s.assocs.lookup s.madeFor.length = none := by
    cases has : s.assocs.lookup s.madeFor.length with
    | none => rfl
    | some as => exact absurd (h.made _ as has) (Nat.lt_irrefl _)
  constructor
  · refine ⟨?_, ?_, ?_, ?_, ?_, ?_⟩
    · intro session e he
      rcases Table.lookup_insert_iff.mp he with ⟨rfl, rfl⟩ | ⟨-, he⟩
      · exact List.getElem?_concat_length
      · exact (List.getElem?_append_left (h.lt_made he)).trans (h.owner session e he)
    · intro session e he
      rcases Table.lookup_insert_iff.mp he with ⟨-, rfl⟩ | ⟨-, he⟩
      · exact ⟨_, AList.lookup_insert s.assocs⟩
      · obtain ⟨as, has⟩ := h.stored session e he
        exact ⟨as, (AList.lookup_insert_ne (h.lt_made he).ne).trans has⟩
    · intro assoc as has
      have hlen : (s.madeFor ++ [package.session]).length = s.madeFor.length + 1 :=
        List.length_append
      show assoc < (s.madeFor ++ [package.session]).length
      rcases Table.lookup_insert_iff.mp has with ⟨rfl, -⟩ | ⟨-, has⟩
      · omega
      · have hlt := h.made assoc as has
        omega
    · intro q k assoc hq hassoc
      rcases Table.lookup_insert_iff.mp hq with ⟨-, rfl⟩ | ⟨-, hq⟩
      · cases hassoc
        exact ⟨_, AList.lookup_insert s.clients⟩
      · obtain ⟨it, he⟩ := h.entry q k assoc hq hassoc
        exact ⟨it, Table.lookup_insert_of hnone _ he⟩
    · have htake : ((s.newAssoc package.session target).setPackage p
          ⟨package, .inside s.madeFor.length⟩).pool = s.pool.take p s.madeFor.length := by
        unfold State.pool Pool.take
        rw [State.held_setPackage]
        congr 1
        funext b
        show ((s.newAssoc package.session target).bare b).map Assoc.inUse = _
        rw [State.bare_newAssoc]
        by_cases hb : b = s.madeFor.length
        · rw [hb, Function.update_self, Function.update_self]
          rfl
        · rw [Function.update_of_ne hb, Function.update_of_ne hb]
      rw [htake]
      refine h.pool.take hheld ?_
      show (s.bare s.madeFor.length).map Assoc.inUse ≠ some true
      rw [State.bare, hnew]
      simp
    · intro q package' target' maxSockets hq
      rcases Table.lookup_insert_iff.mp hq with ⟨-, heq⟩ | ⟨-, hq⟩
      · cases heq
      · exact h.timed q package' target' maxSockets hq
  · exact .makes package otherInfo target hheld hrequest (AList.lookup_insert _)
      (State.bare_newAssoc s package.session target) rfl

theorem openAssoc (h : Exclusive s) {package : Package OtherInfo} {otherInfo : OtherInfo}
    (target : String) (maxSockets : Int) (hrequest : package.request = some (.init otherInfo))
    (hnone : s.Room target maxSockets → s.clients.lookup package.session = none)
    (hheld : s.held p = none) :
    Exclusive (State.settle p package (s.openAssoc package.session target maxSockets)) ∧
      Moves s (State.settle p package (s.openAssoc package.session target maxSockets)) p := by
  unfold State.openAssoc
  split
  · rename_i hroom
    exact h.newAssoc target hrequest (hnone hroom) hheld
  · split
    · exact h.drop hheld
    · exact h.idle (k := ⟨package, .timed target maxSockets⟩) hheld rfl
        fun _ _ _ => ⟨otherInfo, hrequest⟩

theorem sendAndReceive (h : Exclusive s) {package : Package OtherInfo} {assoc : Nat} {as : Assoc}
    (hp : s.packages.lookup p = some ⟨package, .inside assoc⟩)
    (has : s.assocs.lookup assoc = some as) (aborted : Bool) :
    Exclusive (s.setPackage p ⟨package.sendAndReceive as aborted, .served assoc⟩) ∧
      Moves s (s.setPackage p ⟨package.sendAndReceive as aborted, .served assoc⟩) p := by
  have hlookup : (s.setPackage p ⟨package.sendAndReceive as aborted,
      .served assoc⟩).packages.lookup p = some ⟨package.sendAndReceive as aborted,
        .served assoc⟩ := AList.lookup_insert _
  refine ⟨h.congr (p := p) rfl rfl rfl (fun q hq => AList.lookup_insert_ne hq) ?_ ?_ ?_,
    .finishes package assoc as aborted hp has hlookup rfl rfl⟩
  · rw [State.held_of_lookup hlookup, State.held_of_lookup hp]
    rfl
  · intro k assoc' hk hassoc
    rw [hlookup] at hk
    cases hk
    cases hassoc
    rw [Inv.sendAndReceive_session]
    exact h.entry p _ assoc hp rfl
  · intro package' target maxSockets hk
    rw [hlookup] at hk
    cases hk

/-- The package gives its Assoc back and leaves; the Assoc stays, or is deleted with the element of
its session. -/
theorem giveBack (h : Exclusive s) {t : State OtherInfo} {package : Package OtherInfo}
    {assoc : Nat} {left : Option Assoc}
    (hp : s.packages.lookup p = some ⟨package, .served assoc⟩)
    (hpackages : t.packages = s.packages) (hmade : t.madeFor = s.madeFor)
    (hbare : t.bare = Function.update s.bare assoc left)
    (hleft : left.map Assoc.inUse ≠ some true)
    (hclients : ∀ session e, t.clients.lookup session = some e →
      s.clients.lookup session = some e ∧ (e.assoc = assoc → left.isSome = true))
    (hothers : ∀ session e, s.clients.lookup session = some e → e.assoc ≠ assoc →
      t.clients.lookup session = some e) : Exclusive (t.drop p) := by
  have hheld : s.held p = some assoc := State.held_of_lookup hp
  have hbareLookup : ∀ b, b ≠ assoc → t.bare b = s.bare b := by
    intro b hb
    rw [hbare, Function.update_of_ne hb]
  obtain ⟨it, as, hfind, -⟩ := h.find_of_assoc hp rfl
  obtain ⟨he, has⟩ := State.find_eq_some_iff.mp hfind
  refine ⟨?_, ?_, ?_, ?_, ?_, ?_⟩
  · intro session e he'
    show t.madeFor[e.assoc]? = some session
    rw [hmade]
    exact h.owner session e (hclients session e he').1
  · intro session e he'
    obtain ⟨hold, hsome⟩ := hclients session e he'
    show ∃ as, t.assocs.lookup e.assoc = some as
    by_cases heq : e.assoc = assoc
    · obtain ⟨l, hl⟩ := Option.isSome_iff_exists.mp (hsome heq)
      have hb : t.bare assoc = some l := by rw [hbare, Function.update_self, hl]
      obtain ⟨as1, has1, -⟩ := Option.map_eq_some_iff.mp hb
      exact ⟨as1, heq ▸ has1⟩
    · exact State.stored_of_bare (hbareLookup _ heq) (h.stored session e hold)
  · intro assoc' as1 has1
    show assoc' < t.madeFor.length
    rw [hmade]
    by_cases heq : assoc' = assoc
    · rw [heq]
      exact h.made assoc as has
    · obtain ⟨as2, has2⟩ := State.stored_of_bare (s := t) (hbareLookup _ heq).symm ⟨as1, has1⟩
      exact h.made assoc' as2 has2
  · intro q k assoc' hq hassoc
    obtain ⟨hqp, hq⟩ := Table.lookup_erase_iff.mp hq
    rw [hpackages] at hq
    obtain ⟨it', he'⟩ := h.entry q k assoc' hq hassoc
    refine ⟨it', hothers _ _ he' ?_⟩
    rintro rfl
    exact hqp (h.pool.unique q p assoc' ((State.held_of_lookup hq).trans hassoc) hheld)
  · have hgive : (t.drop p).pool = s.pool.giveBack p assoc (left.map Assoc.inUse) := by
      unfold State.pool Pool.giveBack
      have hheldt : t.held = s.held := by
        funext q
        rw [State.held, State.held, hpackages]
      rw [State.held_drop, hheldt]
      congr 1
      funext b
      show (t.bare b).map Assoc.inUse = _
      rw [hbare]
      by_cases hb : b = assoc
      · rw [hb, Function.update_self, Function.update_self]
      · rw [Function.update_of_ne hb, Function.update_of_ne hb]
    rw [hgive]
    exact h.pool.giveBack hheld hleft
  · intro q package' target maxSockets hq
    have hq' := Table.lookup_of_erase hq
    rw [hpackages] at hq'
    exact h.timed q package' target maxSockets hq'

theorem releaseAssoc (h : Exclusive s) {package : Package OtherInfo} {assoc : Nat}
    (hp : s.packages.lookup p = some ⟨package, .served assoc⟩) :
    Exclusive ((s.releaseAssoc package).drop p) ∧
      Moves s ((s.releaseAssoc package).drop p) p := by
  obtain ⟨it, as, hfind, hinUse⟩ := h.find_of_assoc hp rfl
  obtain ⟨he, has⟩ := State.find_eq_some_iff.mp hfind
  have hbare := State.bare_of_lookup has
  have hnone : ∀ t : State OtherInfo, (t.drop p).packages.lookup p = none :=
    fun t => AList.lookup_erase p t.packages
  -- the Assoc stays
  have hstays : ∀ as' : Assoc, ({ as' with queueLen := 0 } : Assoc) =
      ⟨as.host, false, as.destroyed || package.closed, 0⟩ →
      Exclusive ((s.setAssoc assoc as').drop p) ∧ Moves s ((s.setAssoc assoc as').drop p) p := by
    intro as' has'
    have hset := State.bare_setAssoc s assoc as'
    rw [has'] at hset
    refine ⟨h.giveBack (t := s.setAssoc assoc as') hp rfl rfl hset (by simp) ?_ ?_, ?_⟩
    · intro session e he'
      exact ⟨he', fun _ => rfl⟩
    · intro session e he' _
      exact he'
    · exact .releases package assoc _ _ hp hbare (hnone _) (.inr rfl) hset rfl
  unfold State.releaseAssoc
  rw [hfind]
  dsimp only
  split
  · rename_i hclosed
    split
    · -- the last one
      have hdelete := State.bare_deleteAssoc s package.session assoc
        { as with inUse := false, queueLen := as.queueLen - 1, destroyed := true }
      refine ⟨h.giveBack (t := s.deleteAssoc package.session assoc
        { as with inUse := false, queueLen := as.queueLen - 1, destroyed := true }) hp rfl rfl
          hdelete (by simp) ?_ ?_, ?_⟩
      · intro session e he'
        obtain ⟨hne, he'⟩ := Table.lookup_erase_iff.mp he'
        exact ⟨he', fun heq => absurd heq (h.ne_assoc he he' hne)⟩
      · intro session e he' hne
        refine Table.lookup_erase_iff.mpr ⟨?_, he'⟩
        rintro rfl
        rw [he] at he'
        cases he'
        exact hne rfl
      · exact .releases package assoc _ none hp hbare (hnone _) (.inl ⟨rfl, hclosed⟩)
          hdelete rfl
    · refine hstays _ ?_
      rw [hclosed]
      simp
  · rename_i hopen
    have hclosed : package.closed = false := Bool.eq_false_iff.mpr hopen
    refine hstays _ ?_
    rw [hclosed]
    simp

theorem find_eq_none (h : Exclusive s) {session : Nat} (hfind : s.find session = none) :
    s.clients.lookup session = none := by
  cases he : s.clients.lookup session with
  | none => rfl
  | some e =>
    obtain ⟨as, has⟩ := h.stored session e he
    rw [State.find_eq_some_iff.mpr ⟨he, has⟩] at hfind
    cases hfind

theorem start : Exclusive (State.start : State OtherInfo) where
  owner _ _ he := by cases he
  stored _ _ he := by cases he
  made _ _ has := by cases has
  entry _ _ _ hp := by cases hp
  pool := Pool.Sound.start (fun _ => rfl) (fun _ => rfl)
  timed _ _ _ _ hp := by cases hp

end Exclusive

def Label.package : Label OtherInfo → Nat
  | .arrive p _ => p
  | .wake p => p
  | .timedWake p _ => p
  | .sendAndReceive p _ => p
  | .release p => p

/-- A package that comes. -/
theorem Exclusive.getAssoc (yaz : YazOi OtherInfo) (rep : Rep) {s : State OtherInfo} {p : Nat}
    (h : Exclusive s) (package : Package OtherInfo) (hheld : s.held p = none) :
    Exclusive (State.settle p (s.getAssoc yaz rep package).1 (s.getAssoc yaz rep package).2) ∧
      Moves s (State.settle p (s.getAssoc yaz rep package).1
        (s.getAssoc yaz rep package).2) p := by
  unfold State.getAssoc
  cases hfind : s.find package.session with
  | some found =>
    obtain ⟨e, as⟩ := found
    exact h.takeAssoc hfind hheld rfl
  | none =>
    cases hrequest : package.request with
    | none => exact h.drop hheld
    | some gdu =>
      cases gdu with
      | other encoding => exact h.drop hheld
      | http encoding => exact h.drop hheld
      | init otherInfo =>
        cases htarget : rep.target yaz otherInfo with
        | mk result rest =>
          simp only [htarget]
          cases result with
          | error response => exact h.drop hheld
          | ok target =>
            have hrest : ({ package with request := some (.init rest) } :
                Package OtherInfo).request = some (.init rest) := rfl
            exact h.openAssoc target _ hrest (fun _ => h.find_eq_none hfind) hheld

/-- What one step does. -/
theorem Exclusive.of_step (yaz : YazOi OtherInfo) (rep : Rep) {s s' : State OtherInfo}
    {a : Label OtherInfo} (h : Exclusive s) (hapart : Apart s a)
    (hstep : step yaz rep s a = some s') : Exclusive s' ∧ Moves s s' a.package := by
  cases a with
  | arrive p package =>
    rw [step] at hstep
    split at hstep
    · cases hstep
    · rename_i hp
      cases hstep
      exact h.getAssoc yaz rep package (State.held_of_none hp)
  | wake p =>
    rw [step] at hstep
    split at hstep
    · rename_i package it hp
      split at hstep
      · rename_i e as hfind
        split at hstep
        · cases hstep
          exact h.takeAssoc hfind (State.held_of_lookup hp) rfl
        · cases hstep
      · cases hstep
    · cases hstep
  | timedWake p inTime =>
    rw [step] at hstep
    split at hstep
    · rename_i package target maxSockets hp
      cases hstep
      obtain ⟨otherInfo, hrequest⟩ := h.timed p package target maxSockets hp
      have hheld : s.held p = none := State.held_of_lookup hp
      unfold State.retryAssoc
      split
      · rename_i hin
        have hover : s.overwrites p = false := hapart hin
        refine h.openAssoc target maxSockets hrequest ?_ hheld
        intro hroom
        simpa [State.overwrites, hp, hroom] using hover
      · exact h.drop hheld
    · cases hstep
  | sendAndReceive p aborted =>
    rw [step] at hstep
    split at hstep
    · rename_i package assoc hp
      obtain ⟨as, has, rfl⟩ := Option.map_eq_some_iff.mp hstep
      exact h.sendAndReceive hp has aborted
    · cases hstep
  | release p =>
    rw [step] at hstep
    split at hstep
    · rename_i package assoc hp
      cases hstep
      exact h.releaseAssoc hp
    · cases hstep

/-! ## The other packages -/

theorem State.lookup_settle {p q : Nat} (hq : q ≠ p) (package : Package OtherInfo)
    (r : State OtherInfo × Outcome) :
    (State.settle p package r).packages.lookup q = r.1.packages.lookup q := by
  obtain ⟨s, outcome⟩ := r
  cases outcome with
  | assoc assoc => exact AList.lookup_insert_ne hq
  | wait it => exact AList.lookup_insert_ne hq
  | timedWait target maxSockets => exact AList.lookup_insert_ne hq
  | move => exact AList.lookup_erase_ne hq
  | refuse response => exact AList.lookup_erase_ne hq

theorem State.packages_takeAssoc (s : State OtherInfo) (e : Element) (as : Assoc) :
    (s.takeAssoc e as).1.packages = s.packages := by
  unfold State.takeAssoc
  split <;> rfl

theorem State.packages_openAssoc (s : State OtherInfo) (session : Nat) (target : String)
    (maxSockets : Int) : (s.openAssoc session target maxSockets).1.packages = s.packages := by
  unfold State.openAssoc
  split
  · rfl
  · split <;> rfl

theorem State.packages_releaseAssoc (s : State OtherInfo) (package : Package OtherInfo) :
    (s.releaseAssoc package).packages = s.packages := by
  unfold State.releaseAssoc
  split
  · rfl
  · dsimp only
    split
    · split <;> rfl
    · rfl

/-- A step is one of its package. -/
theorem lookup_of_step (yaz : YazOi OtherInfo) (rep : Rep) {s s' : State OtherInfo}
    {a : Label OtherInfo} (hstep : step yaz rep s a = some s') {q : Nat} (hq : q ≠ a.package) :
    s'.packages.lookup q = s.packages.lookup q := by
  cases a with
  | arrive p package =>
    rw [step] at hstep
    split at hstep
    · cases hstep
    · obtain ⟨e, as, -, rfl⟩ | ⟨-, rfl | ⟨package', target, -, rfl⟩⟩ :=
        State.settle_getAssoc yaz rep s p package (Option.some.inj hstep)
      · rw [State.lookup_settle (p := p) hq, State.packages_takeAssoc]
      · exact AList.lookup_erase_ne hq
      · rw [State.lookup_settle (p := p) hq, State.packages_openAssoc]
  | wake p =>
    rw [step] at hstep
    split at hstep
    · split at hstep
      · split at hstep
        · cases hstep
          rw [State.lookup_settle (p := p) hq, State.packages_takeAssoc]
        · cases hstep
      · cases hstep
    · cases hstep
  | timedWake p inTime =>
    rw [step] at hstep
    split at hstep
    · cases hstep
      rw [State.lookup_settle (p := p) hq]
      unfold State.retryAssoc
      split
      · rw [State.packages_openAssoc]
      · rfl
    · cases hstep
  | sendAndReceive p aborted =>
    rw [step] at hstep
    split at hstep
    · obtain ⟨as, -, rfl⟩ := Option.map_eq_some_iff.mp hstep
      exact AList.lookup_insert_ne hq
    · cases hstep
  | release p =>
    rw [step] at hstep
    split at hstep
    · cases hstep
      refine (AList.lookup_erase_ne hq).trans ?_
      rw [State.packages_releaseAssoc]
    · cases hstep

end Z3950Client
end Metaproxy
