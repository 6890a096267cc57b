import Mathlib.Tactic.Linarith
import Mathlib.Tactic.Zify
import Metaproxy.Z3950Client.Limit

/-!
# Z3950Client.Connections

The connection table while packages come, wait, and go. An Assoc should stay the one of its session
until it is deleted, be used by one package at a time, and be gone once it is marked as destroyed
and nobody waits for it (`Safe`).

Two steps break this. A package that comes back from `timed_wait` does not look for its session
again, and puts its Assoc in place of one that was made meanwhile (`overwrites`). The last package
of a destroyed Assoc leaves it behind when its own copy of the session is open (`leaves`).
`connections_safe_iff` says that nothing else does.
-/

namespace Metaproxy
namespace Z3950Client

open Lib

variable {OtherInfo : Type*}

/-- The Assoc that a package works with. -/
def Pc.assoc : Pc → Option Nat
  | .inside assoc => some assoc
  | .served assoc => some assoc
  | .waiting _ => none
  | .timed _ _ => none

structure Safe (max : Int) (s : State OtherInfo) : Prop where
  limit : ∀ host, (s.number host : Int) ≤ max
  entry : ∀ assoc as session, s.assocs.lookup assoc = some as →
    s.madeFor[assoc]? = some session → ∃ it, s.clients.lookup session = some ⟨it, assoc⟩
  alone : ∀ p q h k assoc, s.packages.lookup p = some h → s.packages.lookup q = some k →
    h.pc.assoc = some assoc → k.pc.assoc = some assoc → p = q
  stored : ∀ p h assoc, s.packages.lookup p = some h → h.pc.assoc = some assoc →
    ∃ as, s.assocs.lookup assoc = some as
  deleted : ∀ as ∈ s.deleted, as.queueLen = 0
  removed : ∀ session e as, s.find session = some (e, as) → as.destroyed = true →
    ∃ p h, s.packages.lookup p = some h ∧ (h.pc.assoc = some e.assoc ∨
      h.package.session = session ∧ h.pc = .waiting e.it)

namespace State

/-- The new Assoc takes the place of another one. -/
def overwrites (s : State OtherInfo) (p : Nat) : Bool :=
  match s.packages.lookup p with
  | some ⟨package, .timed target maxSockets⟩ =>
    decide (s.Room target maxSockets) && (s.clients.lookup package.session).isSome
  | _ => false

/-- A destroyed Assoc that nobody else waits for is not deleted. -/
def leaves (s : State OtherInfo) (p : Nat) : Bool :=
  match s.packages.lookup p with
  | some ⟨package, .served _⟩ =>
    match s.find package.session with
    | some (_, as) => as.destroyed && as.queueLen = 1 && !package.closed
    | none => false
  | _ => false

end State

/-- The steps that keep the table as it should be. -/
def Keeps (s : State OtherInfo) : Label OtherInfo → Prop
  | .timedWake p inTime => inTime = true → s.overwrites p = false
  | .release p => s.leaves p = false
  | _ => True

instance decidableFixed (rep : Rep) (max : Int) :
    ∀ a : Label OtherInfo, Decidable (Fixed rep max a)
  | .arrive _ package => inferInstanceAs (Decidable (rep.maxSocketsOf package = max))
  | .wake _ => isTrue trivial
  | .timedWake _ _ => isTrue trivial
  | .sendAndReceive _ _ => isTrue trivial
  | .release _ => isTrue trivial

instance decidableKeeps (s : State OtherInfo) : ∀ a, Decidable (Keeps s a)
  | .arrive _ _ => isTrue trivial
  | .wake _ => isTrue trivial
  | .timedWake p inTime => inferInstanceAs (Decidable (inTime = true → s.overwrites p = false))
  | .sendAndReceive _ _ => isTrue trivial
  | .release p => inferInstanceAs (Decidable (s.leaves p = false))

/-! ## The packages of one session -/

def Pc.queued : Pc → Bool
  | .timed _ _ => false
  | _ => true

/-- Is the package counted in `m_queue_len` of its session? -/
def Held.queues (session : Nat) (h : Held OtherInfo) : Bool :=
  h.package.session = session && h.pc.queued

def Pc.Fits (e : Element) (as : Assoc) : Pc → Prop
  | .waiting it => it = e.it
  | .inside assoc => assoc = e.assoc ∧ as.inUse = true
  | .served assoc => assoc = e.assoc ∧ as.inUse = true
  | .timed _ _ => True

structure Stored (packages : Table Nat (Held OtherInfo)) (session : Nat) (e : Element)
    (as : Assoc) : Prop where
  queueLen : as.queueLen = packages.count (Held.queues session)
  fits : ∀ p h, packages.lookup p = some h → h.package.session = session → h.pc.Fits e as
  alone : ∀ p q h k, packages.lookup p = some h → packages.lookup q = some k →
    h.package.session = session → k.package.session = session →
    h.pc.assoc.isSome = true → k.pc.assoc.isSome = true → p = q
  lasting : as.destroyed = true → 0 < as.queueLen

/-- How the packages of a session stand to what it has in the table. -/
def Accords (packages : Table Nat (Held OtherInfo)) (session : Nat) :
    Option (Element × Assoc) → Prop
  | none => packages.count (Held.queues session) = 0
  | some (e, as) => Stored packages session e as

theorem Pc.queued_of_assoc {pc : Pc} (h : pc.assoc.isSome = true) : pc.queued = true := by
  cases pc with
  | waiting it => rfl
  | timed target maxSockets => cases h
  | inside assoc => rfl
  | served assoc => rfl

theorem Pc.Fits.of_assoc {pc : Pc} {e : Element} {as : Assoc} (h : pc.Fits e as)
    (hassoc : pc.assoc.isSome = true) : pc.assoc = some e.assoc ∧ as.inUse = true := by
  cases pc with
  | waiting it => cases hassoc
  | timed target maxSockets => cases hassoc
  | inside assoc =>
    obtain ⟨rfl, hinUse⟩ := h
    exact ⟨rfl, hinUse⟩
  | served assoc =>
    obtain ⟨rfl, hinUse⟩ := h
    exact ⟨rfl, hinUse⟩

theorem Pc.Fits.congr {pc : Pc} {e : Element} {as as' : Assoc} (h : pc.Fits e as)
    (hinUse : pc.assoc.isSome = true → as'.inUse = true) : pc.Fits e as' := by
  cases pc with
  | waiting it => exact h
  | timed target maxSockets => exact h
  | inside assoc => exact ⟨h.1, hinUse rfl⟩
  | served assoc => exact ⟨h.1, hinUse rfl⟩

theorem Pc.Fits.of_not_queued {pc : Pc} {e : Element} {as : Assoc} (h : pc.queued = false) :
    pc.Fits e as := by
  cases pc with
  | timed target maxSockets => trivial
  | waiting it => cases h
  | inside assoc => cases h
  | served assoc => cases h

section Packages

variable {packages : Table Nat (Held OtherInfo)} {session : Nat} {p : Nat}
  {o : Option (Held OtherInfo)}

/-- A package of another session changes nothing. -/
theorem Accords.frame {found : Option (Element × Assoc)} (h : Accords packages session found)
    (hold : ∀ k, packages.lookup p = some k → k.package.session ≠ session)
    (hnew : ∀ k, o = some k → k.package.session ≠ session) :
    Accords (packages.put p o) session found := by
  have hother : ∀ q k, (packages.put p o).lookup q = some k → k.package.session = session →
      packages.lookup q = some k := by
    intro q k hq hs
    rw [Table.lookup_put] at hq
    split at hq
    · exact absurd hs (hnew k hq)
    · exact hq
  have hcount : (packages.put p o).count (Held.queues session) =
      packages.count (Held.queues session) := by
    have hput := Table.count_put (Held.queues session) packages p o
    have hzero : ∀ k : Option (Held OtherInfo), (∀ h, k = some h → h.package.session ≠ session) →
        k.any (Held.queues session) = false := by
      intro k hk
      cases k with
      | none => rfl
      | some h => simp [Held.queues, hk h rfl]
    rw [hzero _ hold, hzero _ hnew] at hput
    simpa using hput
  cases found with
  | none => exact hcount.trans h
  | some found =>
    obtain ⟨e, as⟩ := found
    have hs : Stored packages session e as := h
    exact
      { queueLen := by rw [hcount]; exact hs.queueLen
        fits := fun q k hq hk => hs.fits q k (hother q k hq hk) hk
        alone := fun q r k l hq hr hk hl =>
          hs.alone q r k l (hother q k hq hk) (hother r l hr hl) hk hl
        lasting := hs.lasting }

/-- One package of the session goes on. When it takes or gives back the Assoc, no other one works
with it. -/
theorem Stored.move {e : Element} {as as' : Assoc} (h : Stored packages session e as)
    (hlen : as'.queueLen + (if (packages.lookup p).any (Held.queues session) then 1 else 0) =
      as.queueLen + if o.any (Held.queues session) then 1 else 0)
    (hfits : ∀ k, o = some k → k.package.session = session → k.pc.Fits e as')
    (hworks : o.any (fun k => k.pc.assoc.isSome) = true ∨ as'.inUse = false →
      as.inUse = false ∨ ∃ k, packages.lookup p = some k ∧ k.package.session = session ∧
        k.pc.assoc.isSome = true)
    (hlasting : as'.destroyed = true → 0 < as'.queueLen) :
    Stored (packages.put p o) session e as' := by
  have hput := Table.count_put (Held.queues session) packages p o
  -- whoever else works with the Assoc keeps `p` from taking it and from giving it back
  have hothers : ∀ q k, q ≠ p → packages.lookup q = some k → k.package.session = session →
      k.pc.assoc.isSome = true →
      o.any (fun k => k.pc.assoc.isSome) = false ∧ as'.inUse = true := by
    intro q k hqp hq hk hassoc
    by_contra hnot
    have hor : o.any (fun k => k.pc.assoc.isSome) = true ∨ as'.inUse = false := by
      by_cases ho : o.any (fun k => k.pc.assoc.isSome) = true
      · exact .inl ho
      · refine .inr (Bool.eq_false_iff.mpr ?_)
        intro hinUse
        exact hnot ⟨Bool.eq_false_iff.mpr ho, hinUse⟩
    obtain hfree | ⟨l, hp, hl, hlassoc⟩ := hworks hor
    · rw [((h.fits q k hq hk).of_assoc hassoc).2] at hfree
      cases hfree
    · exact hqp (h.alone q p k l hq hp hk hl hassoc hlassoc)
  refine ⟨?_, ?_, ?_, hlasting⟩
  · have hold := h.queueLen
    zify at hput
    linarith
  · intro q k hq hk
    rw [Table.lookup_put] at hq
    split at hq
    · exact hfits k hq hk
    · rename_i hqp
      exact (h.fits q k hq hk).congr fun hassoc => (hothers q k hqp hq hk hassoc).2
  · intro q r k l hq hr hk hl hkassoc hlassoc
    rw [Table.lookup_put] at hq hr
    split at hq
    · rename_i hqp
      split at hr
      · rename_i hrp
        rw [hqp, hrp]
      · rename_i hrp
        have hnone := (hothers r l hrp hr hl hlassoc).1
        rw [hq, Option.any_some, hkassoc] at hnone
        cases hnone
    · rename_i hqp
      split at hr
      · have hnone := (hothers q k hqp hq hk hkassoc).1
        rw [hr, Option.any_some, hlassoc] at hnone
        cases hnone
      · exact h.alone q r k l hq hr hk hl hkassoc hlassoc

/-- A package that is not counted comes, waits on, or leaves. -/
theorem Accords.idle {found : Option (Element × Assoc)} (h : Accords packages session found)
    (hold : (packages.lookup p).any (fun k => k.pc.queued) = false)
    (hnew : o.any (fun k => k.pc.queued) = false) : Accords (packages.put p o) session found := by
  have hzero : ∀ k : Option (Held OtherInfo), k.any (fun k => k.pc.queued) = false →
      k.any (Held.queues session) = false := by
    intro k hk
    cases k with
    | none => rfl
    | some k =>
      rw [Option.any_some] at hk
      simp [Held.queues, hk]
  have hput := Table.count_put (Held.queues session) packages p o
  rw [hzero _ hold, hzero _ hnew] at hput
  cases found with
  | none => exact (by simpa using hput : _ = _).trans h
  | some found =>
    obtain ⟨e, as⟩ := found
    have hs : Stored packages session e as := h
    refine Stored.move hs ?_ ?_ ?_ hs.lasting
    · rw [hzero _ hold, hzero _ hnew]
    · rintro k rfl -
      exact Pc.Fits.of_not_queued hnew
    · rintro (ho | hfree)
      · cases o with
        | none => cases ho
        | some k =>
          rw [Option.any_some] at ho hnew
          rw [Pc.queued_of_assoc ho] at hnew
          cases hnew
      · exact .inl hfree

/-- The package that makes an Assoc is the only one of its session that is counted. -/
theorem Accords.first {package : Package OtherInfo} (h : Accords packages package.session none)
    (p it assoc : Nat) (target : String) :
    Stored (packages.put p (some ⟨package, .inside assoc⟩)) package.session ⟨it, assoc⟩
      ⟨target, true, false, 1⟩ := by
  have hidle := Table.count_eq_zero_iff.mp h
  have hqueued : ∀ q k, packages.lookup q = some k → k.package.session = package.session →
      k.pc.queued = false := by
    intro q k hq hk
    have hqueues := hidle q k hq
    simpa [Held.queues, hk] using hqueues
  have honly : ∀ q k, (packages.put p (some ⟨package, .inside assoc⟩)).lookup q = some k →
      k.package.session = package.session → k.pc.queued = true → q = p := by
    intro q k hq hk hkq
    rw [Table.lookup_put] at hq
    split at hq
    · assumption
    · rw [hqueued q k hq hk] at hkq
      cases hkq
  refine ⟨?_, ?_, ?_, ?_⟩
  · have hput := Table.count_put (Held.queues package.session) packages p
      (some ⟨package, .inside assoc⟩)
    have hp : (packages.lookup p).any (Held.queues package.session) = false := by
      cases hp : packages.lookup p with
      | none => rfl
      | some k => exact hidle p k hp
    have hzero : packages.count (Held.queues package.session) = 0 := h
    rw [hp, hzero] at hput
    simp [Held.queues, Pc.queued] at hput
    simp [hput]
  · intro q k hq hk
    rw [Table.lookup_put] at hq
    split at hq
    · cases hq
      exact ⟨rfl, rfl⟩
    · exact Pc.Fits.of_not_queued (hqueued q k hq hk)
  · intro q r k l hq hr hk hl hkassoc hlassoc
    rw [honly q k hq hk (Pc.queued_of_assoc hkassoc),
      honly r l hr hl (Pc.queued_of_assoc hlassoc)]
  · intro hdestroyed
    cases hdestroyed

end Packages

/-! ## The table -/

structure Inv (s : State OtherInfo) : Prop where
  accords : ∀ session, Accords s.packages session (s.find session)
  owned : ∀ assoc as, s.assocs.lookup assoc = some as →
    ∃ session it, s.clients.lookup session = some ⟨it, assoc⟩

namespace Inv

variable {max : Int} {s : State OtherInfo} {p : Nat} {o : Option (Held OtherInfo)}

theorem stored (h : Inv s) {session : Nat} {e : Element} {as : Assoc}
    (hfind : s.find session = some (e, as)) : Stored s.packages session e as := by
  have haccords := h.accords session
  rw [hfind] at haccords
  exact haccords

/-- A package that works with an Assoc works with the one of its session. -/
theorem find_of_assoc (h : Inv s) {k : Held OtherInfo} {assoc : Nat}
    (hp : s.packages.lookup p = some k) (hassoc : k.pc.assoc = some assoc) :
    ∃ e as, s.find k.package.session = some (e, as) ∧ e.assoc = assoc ∧ as.inUse = true := by
  have hsome : k.pc.assoc.isSome = true := by rw [hassoc]; rfl
  have haccords := h.accords k.package.session
  cases hfind : s.find k.package.session with
  | none =>
    rw [hfind] at haccords
    have hqueues := Table.count_eq_zero_iff.mp haccords p k hp
    simp [Held.queues, Pc.queued_of_assoc hsome] at hqueues
  | some found =>
    obtain ⟨e, as⟩ := found
    obtain ⟨heq, hinUse⟩ := ((h.stored hfind).fits p k hp rfl).of_assoc hsome
    rw [hassoc] at heq
    exact ⟨e, as, rfl, (Option.some.inj heq).symm, hinUse⟩

/-! ## The operations -/

theorem idle (h : Inv s) (hold : (s.packages.lookup p).any (fun k => k.pc.queued) = false)
    (hnew : o.any (fun k => k.pc.queued) = false) :
    Inv { s with packages := s.packages.put p o } where
  accords session := (h.accords session).idle hold hnew
  owned := h.owned

theorem setAssoc (h : Inv s) (hb : Basic max s) {session : Nat} {e : Element} {as as' : Assoc}
    (hfind : s.find session = some (e, as))
    (hold : ∀ k, s.packages.lookup p = some k → k.package.session = session)
    (hnew : ∀ k, o = some k → k.package.session = session)
    (hstored : Stored (s.packages.put p o) session e as') :
    Inv { s.setAssoc e.assoc as' with packages := s.packages.put p o } where
  accords := by
    intro session'
    have hfind' := hb.find_setAssoc (State.find_eq_some_iff.mp hfind).1 as' session'
    have heq : State.find { s.setAssoc e.assoc as' with packages := s.packages.put p o } session' =
        (s.setAssoc e.assoc as').find session' := rfl
    rw [heq, hfind']
    by_cases hs : session' = session
    · rw [if_pos hs, hs]
      exact hstored
    · rw [if_neg hs]
      refine (h.accords session').frame ?_ ?_
      · intro k hk hk'
        exact hs (hk'.symm.trans (hold k hk))
      · intro k hk hk'
        exact hs (hk'.symm.trans (hnew k hk))
  owned := by
    intro assoc as1 has1
    obtain ⟨he, has⟩ := State.find_eq_some_iff.mp hfind
    obtain ⟨rfl, -⟩ | ⟨-, has1⟩ := Table.lookup_insert_iff.mp has1
    · exact ⟨session, e.it, he⟩
    · exact h.owned assoc as1 has1

theorem takeAssoc (h : Inv s) (hb : Basic max s) {e : Element} {as as' : Assoc}
    {package : Package OtherInfo} (hfind : s.find package.session = some (e, as))
    (hold : ∀ k, s.packages.lookup p = some k → k.package.session = package.session)
    (hlen : as'.queueLen +
      (if (s.packages.lookup p).any (Held.queues package.session) then 1 else 0) =
        as.queueLen + 1)
    (hinUse : as'.inUse = as.inUse) (hlasting : as'.destroyed = true → 0 < as'.queueLen) :
    Inv (State.settle p package (s.takeAssoc e as')) := by
  have hstored := h.stored hfind
  unfold State.takeAssoc
  split
  · rename_i hused
    refine h.setAssoc (o := some ⟨package, .waiting e.it⟩) hb hfind hold ?_
      (hstored.move ?_ ?_ ?_ hlasting)
    · rintro k ⟨⟩
      rfl
    · simpa [Held.queues, Pc.queued] using hlen
    · rintro k ⟨⟩ -
      rfl
    · rintro (hworks | hfree)
      · cases hworks
      · rw [hused] at hfree
        cases hfree
  · rename_i hfree
    refine h.setAssoc (o := some ⟨package, .inside e.assoc⟩) hb hfind hold ?_
      (hstored.move ?_ ?_ ?_ hlasting)
    · rintro k ⟨⟩
      rfl
    · simpa [Held.queues, Pc.queued] using hlen
    · rintro k ⟨⟩ -
      exact ⟨rfl, rfl⟩
    · rintro -
      rw [hinUse] at hfree
      exact .inl (Bool.eq_false_iff.mpr hfree)

theorem newAssoc (h : Inv s) (hb : Basic max s) {package : Package OtherInfo} (target : String)
    (hnone : s.clients.lookup package.session = none)
    (hold : ∀ k, s.packages.lookup p = some k → k.package.session = package.session) :
    Inv ((s.newAssoc package.session target).setPackage p
      ⟨package, .inside s.madeFor.length⟩) where
  accords := by
    intro session'
    have hfind' := hb.find_newAssoc package.session target session'
    have heq : ((s.newAssoc package.session target).setPackage p
        ⟨package, .inside s.madeFor.length⟩).find session' =
          (s.newAssoc package.session target).find session' := rfl
    have hput : ((s.newAssoc package.session target).setPackage p
        ⟨package, .inside s.madeFor.length⟩).packages =
          s.packages.put p (some ⟨package, .inside s.madeFor.length⟩) := rfl
    rw [heq, hput, hfind']
    by_cases hs : session' = package.session
    · have haccords := h.accords package.session
      rw [State.find, hnone] at haccords
      rw [if_pos hs, hs]
      exact haccords.first p _ _ target
    · rw [if_neg hs]
      refine (h.accords session').frame ?_ ?_
      · intro k hk hk'
        exact hs (hk'.symm.trans (hold k hk))
      · rintro k ⟨⟩ hk'
        exact hs hk'.symm
  owned := by
    intro assoc as has
    obtain ⟨rfl, -⟩ | ⟨-, has⟩ := Table.lookup_insert_iff.mp has
    · exact ⟨package.session, _, AList.lookup_insert _⟩
    · obtain ⟨session, it, he⟩ := h.owned assoc as has
      exact ⟨session, it, Table.lookup_insert_of hnone _ he⟩

theorem deleteAssoc (h : Inv s) (hb : Basic max s) {session : Nat} {e : Element} (as : Assoc)
    (he : s.clients.lookup session = some e)
    (hold : ∀ k, s.packages.lookup p = some k → k.package.session = session)
    (hzero : (s.packages.put p none).count (Held.queues session) = 0) :
    Inv ((s.deleteAssoc session e.assoc as).drop p) where
  accords := by
    intro session'
    have hfind' := hb.find_deleteAssoc he as session'
    have heq : ((s.deleteAssoc session e.assoc as).drop p).find session' =
        (s.deleteAssoc session e.assoc as).find session' := rfl
    have hput : ((s.deleteAssoc session e.assoc as).drop p).packages = s.packages.put p none := rfl
    rw [heq, hput, hfind']
    by_cases hs : session' = session
    · rw [if_pos hs, hs]
      exact hzero
    · rw [if_neg hs]
      refine (h.accords session').frame ?_ ?_
      · intro k hk hk'
        exact hs (hk'.symm.trans (hold k hk))
      · intro k hk
        cases hk
  owned := by
    intro assoc as1 has1
    obtain ⟨hne, has1⟩ := Table.lookup_erase_iff.mp has1
    obtain ⟨session', it, he'⟩ := h.owned assoc as1 has1
    refine ⟨session', it, Table.lookup_erase_iff.mpr ⟨?_, he'⟩⟩
    rintro rfl
    rw [he] at he'
    cases he'
    exact hne rfl

theorem openAssoc (h : Inv s) (hb : Basic max s) {package : Package OtherInfo} {target : String}
    {maxSockets : Int}
    (hnone : s.Room target maxSockets → s.clients.lookup package.session = none)
    (hold : ∀ k, s.packages.lookup p = some k → k.package.session = package.session)
    (hidle : (s.packages.lookup p).any (fun k => k.pc.queued) = false) :
    Inv (State.settle p package (s.openAssoc package.session target maxSockets)) := by
  unfold State.openAssoc
  split
  · rename_i hroom
    exact h.newAssoc hb target (hnone hroom) hold
  · split
    · exact h.idle (o := none) hidle rfl
    · exact h.idle (o := some ⟨package, .timed target maxSockets⟩) hidle rfl

/-! ## The steps -/

/-- The state after `release_assoc`, with the package gone. -/
theorem releaseAssoc (h : Inv s) (hb : Basic max s) {package : Package OtherInfo} {assoc : Nat}
    (hp : s.packages.lookup p = some ⟨package, .served assoc⟩) (hkeeps : s.leaves p = false) :
    Inv ((s.releaseAssoc package).drop p) := by
  obtain ⟨e, as, hfind, -⟩ : ∃ e as, s.find package.session = some (e, as) ∧ e.assoc = assoc ∧
      as.inUse = true := h.find_of_assoc hp rfl
  have hstored := h.stored hfind
  have hold : ∀ k, s.packages.lookup p = some k → k.package.session = package.session := by
    intro k hk
    rw [hp] at hk
    cases hk
    rfl
  have hqueues : (s.packages.lookup p).any (Held.queues package.session) = true := by
    rw [hp]
    simp [Held.queues, Pc.queued]
  have hput := Table.count_put (Held.queues package.session) s.packages p none
  have hlen := hstored.queueLen
  rw [hqueues] at hput
  simp only [if_true, Option.any_none, Bool.false_eq_true, if_false] at hput
  have hkept : ∀ as' : Assoc, as'.queueLen = as.queueLen - 1 →
      (as'.destroyed = true → as'.queueLen ≠ 0) →
      Inv ((s.setAssoc e.assoc as').drop p) := by
    intro as' hlen' hlasting
    refine h.setAssoc (o := none) hb hfind hold ?_ (hstored.move ?_ ?_ ?_ ?_)
    · intro k hk
      cases hk
    · rw [hqueues, hlen']
      simp
    · intro k hk
      cases hk
    · intro _
      exact .inr ⟨_, hp, rfl, rfl⟩
    · intro hdestroyed
      have hne := hlasting hdestroyed
      have hpos := Table.count_pos hp (by simp [Held.queues, Pc.queued] :
        Held.queues package.session ⟨package, .served assoc⟩ = true)
      omega
  simp only [State.releaseAssoc, hfind]
  split
  · split
    · rename_i hzero
      have hzero' : as.queueLen - 1 = 0 := hzero
      refine h.deleteAssoc hb _ (State.find_eq_some_iff.mp hfind).1 hold ?_
      omega
    · rename_i hne
      exact hkept _ rfl fun _ => hne
  · rename_i hopen
    refine hkept _ rfl ?_
    intro hdestroyed hzero
    have hdestroyed' : as.destroyed = true := hdestroyed
    have hone : as.queueLen = 1 := by
      have hzero' : as.queueLen - 1 = 0 := hzero
      omega
    simp [State.leaves, hp, hfind, hdestroyed', hone] at hkeeps
    exact hopen hkeeps

theorem sendAndReceive_session (package : Package OtherInfo) (as : Assoc) (aborted : Bool) :
    (package.sendAndReceive as aborted).session = package.session := by
  unfold Package.sendAndReceive
  split
  · rfl
  · split <;> rfl

theorem sendAndReceive (h : Inv s) {package : Package OtherInfo} {assoc : Nat}
    (hp : s.packages.lookup p = some ⟨package, .inside assoc⟩) (as : Assoc) (aborted : Bool) :
    Inv (s.setPackage p ⟨package.sendAndReceive as aborted, .served assoc⟩) := by
  obtain ⟨e, as', hfind, rfl, hinUse⟩ := h.find_of_assoc hp rfl
  have hstored := h.stored hfind
  have hsession := sendAndReceive_session package as aborted
  have hmoved : Stored (s.packages.put p
      (some ⟨package.sendAndReceive as aborted, .served e.assoc⟩)) package.session e as' := by
    refine hstored.move ?_ ?_ ?_ hstored.lasting
    · rw [hp]
      simp [Held.queues, Pc.queued, hsession]
    · rintro k ⟨⟩ -
      exact ⟨rfl, hinUse⟩
    · intro _
      exact .inr ⟨_, hp, rfl, rfl⟩
  refine ⟨?_, h.owned⟩
  intro session
  have heq : (s.setPackage p ⟨package.sendAndReceive as aborted, .served e.assoc⟩).find session =
      s.find session := rfl
  rw [heq]
  by_cases hs : session = package.session
  · rw [hs, hfind]
    exact hmoved
  · refine Accords.frame (o := some ⟨package.sendAndReceive as aborted, .served e.assoc⟩)
      (h.accords session) ?_ ?_
    · intro k hk hk'
      rw [hp] at hk
      cases hk
      exact hs hk'.symm
    · rintro k ⟨⟩ hk'
      exact hs (hk'.symm.trans hsession)

/-- What one step does to the table. -/
theorem of_step (yaz : YazOi OtherInfo) (rep : Rep) {a : Label OtherInfo} {s' : State OtherInfo}
    (h : Inv s) (hb : Basic max s) (hkeeps : Keeps s a) (hstep : step yaz rep s a = some s') :
    Inv s' := by
  cases a with
  | arrive p package =>
    rw [step] at hstep
    split at hstep
    · cases hstep
    · rename_i hp
      have hnew : ∀ k, s.packages.lookup p = some k → k.package.session = package.session := by
        intro k hk
        rw [hp] at hk
        cases hk
      obtain ⟨e, as, hfind, rfl⟩ | ⟨hfind, rfl | ⟨package', target, hsession, rfl⟩⟩ :=
        State.settle_getAssoc yaz rep s p package (Option.some.inj hstep)
      · have hlen := (h.stored hfind).queueLen
        refine h.takeAssoc hb hfind hnew ?_ rfl ?_
        · rw [hp]
          simp
        · intro _
          show (0 : Int) < as.queueLen + 1
          omega
      · exact h.idle (o := none) (by rw [hp]; rfl) rfl
      · rw [← hsession] at hfind hnew ⊢
        exact h.openAssoc hb (fun _ => hb.find_eq_none hfind) hnew (by rw [hp]; rfl)
  | wake p =>
    rw [step] at hstep
    split at hstep
    · rename_i package it hp
      split at hstep
      · rename_i e as hfind
        split at hstep
        · cases hstep
          refine h.takeAssoc hb hfind ?_ ?_ rfl (h.stored hfind).lasting
          · intro k hk
            rw [hp] at hk
            cases hk
            rfl
          · rw [hp]
            simp [Held.queues, Pc.queued]
        · cases hstep
      · cases hstep
    · cases hstep
  | timedWake p inTime =>
    rw [step] at hstep
    split at hstep
    · rename_i package target maxSockets hp
      cases hstep
      have hidle : (s.packages.lookup p).any (fun k => k.pc.queued) = false := by
        rw [hp]
        rfl
      unfold State.retryAssoc
      split
      · rename_i hin
        have hover : s.overwrites p = false := hkeeps hin
        refine h.openAssoc hb ?_ ?_ hidle
        · intro hroom
          simpa [State.overwrites, hp, hroom] using hover
        · intro k hk
          rw [hp] at hk
          cases hk
          rfl
      · exact h.idle (o := none) hidle rfl
    · cases hstep
  | sendAndReceive p aborted =>
    rw [step] at hstep
    split at hstep
    · rename_i package assoc hp
      obtain ⟨as, -, rfl⟩ := Option.map_eq_some_iff.mp hstep
      exact h.sendAndReceive hp as aborted
    · cases hstep
  | release p =>
    rw [step] at hstep
    split at hstep
    · rename_i package assoc hp
      cases hstep
      exact h.releaseAssoc hb hp hkeeps
    · cases hstep

/-! ## Safety -/

/-- Packages that work with an Assoc are of its session. -/
theorem session_of_assoc (h : Inv s) (hb : Basic max s) {k : Held OtherInfo} {session : Nat}
    {e : Element} (he : s.clients.lookup session = some e) (hp : s.packages.lookup p = some k)
    (hassoc : k.pc.assoc = some e.assoc) : k.package.session = session := by
  obtain ⟨e', as', hfind', heq, -⟩ := h.find_of_assoc hp hassoc
  by_contra hne
  exact hb.ne_assoc he (State.find_eq_some_iff.mp hfind').1 hne heq

theorem safe (h : Inv s) (hb : Basic max s) : Safe max s where
  limit := hb.number
  entry := by
    intro assoc as session has hmade
    obtain ⟨session', it, he⟩ := h.owned assoc as has
    have hmade' := hb.madeFor session' _ he
    rw [hmade] at hmade'
    cases hmade'
    exact ⟨it, he⟩
  alone := by
    intro p q k l assoc hp hq hk hl
    obtain ⟨e, as, hfind, rfl, -⟩ := h.find_of_assoc hp hk
    have hsession := h.session_of_assoc hb (State.find_eq_some_iff.mp hfind).1 hq hl
    refine (h.stored hfind).alone p q k l hp hq rfl hsession ?_ ?_
    · rw [hk]
      rfl
    · rw [hl]
      rfl
  stored := by
    intro p k assoc hp hk
    obtain ⟨e, as, hfind, rfl, -⟩ := h.find_of_assoc hp hk
    exact ⟨as, (State.find_eq_some_iff.mp hfind).2⟩
  deleted := hb.deleted
  removed := by
    intro session e as hfind hdestroyed
    have hstored := h.stored hfind
    have hpos := hstored.lasting hdestroyed
    have hlen := hstored.queueLen
    have hcount : s.packages.count (Held.queues session) ≠ 0 := by omega
    rw [Ne, Table.count_eq_zero_iff] at hcount
    push Not at hcount
    obtain ⟨p, k, hp, hqueues⟩ := hcount
    have hq : k.package.session = session ∧ k.pc.queued = true := by
      simpa [Held.queues] using hqueues
    refine ⟨p, k, hp, ?_⟩
    have hfits := hstored.fits p k hp hq.1
    cases hpc : k.pc with
    | timed target maxSockets =>
      rw [hpc] at hq
      cases hq.2
    | waiting it =>
      rw [hpc] at hfits
      cases hfits
      exact .inr ⟨hq.1, rfl⟩
    | inside assoc =>
      rw [hpc] at hfits
      rw [hfits.1]
      exact .inl rfl
    | served assoc =>
      rw [hpc] at hfits
      rw [hfits.1]
      exact .inl rfl

theorem not_safe_of_leaves (h : Inv s) (hb : Basic max s) {package : Package OtherInfo}
    {assoc : Nat} (hp : s.packages.lookup p = some ⟨package, .served assoc⟩)
    (hleaves : s.leaves p = true) : ¬ Safe max ((s.releaseAssoc package).drop p) := by
  intro hsafe
  obtain ⟨e, as, hfind, -⟩ : ∃ e as, s.find package.session = some (e, as) ∧ e.assoc = assoc ∧
      as.inUse = true := h.find_of_assoc hp rfl
  simp only [State.leaves, hp, hfind, Bool.and_eq_true, decide_eq_true_eq,
    Bool.not_eq_true'] at hleaves
  obtain ⟨⟨hdestroyed, hone⟩, hopen⟩ := hleaves
  have he := (State.find_eq_some_iff.mp hfind).1
  have hfind' := hb.find_setAssoc he
    { as with inUse := false, queueLen := as.queueLen - 1 } package.session
  rw [if_pos rfl] at hfind'
  simp only [State.releaseAssoc, hfind, hopen, Bool.false_eq_true, if_false] at hsafe
  obtain ⟨q, k, hq, hqueues⟩ := hsafe.removed package.session e _ hfind' hdestroyed
  -- nobody but `p` was counted
  have hput := Table.count_put (Held.queues package.session) s.packages p none
  have hlen := (h.stored hfind).queueLen
  have hzero : (s.packages.put p none).count (Held.queues package.session) = 0 := by
    have hp' : (s.packages.lookup p).any (Held.queues package.session) = true := by
      rw [hp]
      simp [Held.queues, Pc.queued]
    rw [hp'] at hput
    simp only [if_true, Option.any_none, Bool.false_eq_true, if_false] at hput
    omega
  have hnot := Table.count_eq_zero_iff.mp hzero q k hq
  have hq' : s.packages.lookup q = some k := Table.lookup_of_erase hq
  obtain hassoc | ⟨hsession, hpc⟩ := hqueues
  · have hsession := h.session_of_assoc hb he hq' hassoc
    have hqueued : k.pc.queued = true := Pc.queued_of_assoc (by rw [hassoc]; rfl)
    simp [Held.queues, hsession, hqueued] at hnot
  · simp [Held.queues, hsession, hpc, Pc.queued] at hnot

end Inv

theorem Basic.not_safe_of_overwrites {max : Int} {s : State OtherInfo} {p : Nat}
    (hb : Basic max s) {package : Package OtherInfo} {target : String} {maxSockets : Int}
    (hp : s.packages.lookup p = some ⟨package, .timed target maxSockets⟩)
    (hover : s.overwrites p = true) :
    ¬ Safe max (State.settle p package (s.openAssoc package.session target maxSockets)) := by
  intro hsafe
  simp only [State.overwrites, hp, Bool.and_eq_true, decide_eq_true_eq] at hover
  obtain ⟨hroom, hsome⟩ := hover
  obtain ⟨e, he⟩ := Option.isSome_iff_exists.mp hsome
  obtain ⟨as, has⟩ := hb.stored _ e he
  rw [State.openAssoc, if_pos hroom] at hsafe
  have hlt := hb.lt_made he
  -- the old Assoc is still there, and the element has the new one
  obtain ⟨it, hentry⟩ := hsafe.entry e.assoc as package.session
    ((AList.lookup_insert_ne hlt.ne).trans has)
    ((List.getElem?_append_left hlt).trans (hb.madeFor _ e he))
  have hnew : some (⟨((s.clients.lookup package.session).map Element.it).getD s.madeFor.length,
      s.madeFor.length⟩ : Element) = some ⟨it, e.assoc⟩ :=
    (AList.lookup_insert _).symm.trans hentry
  have hsame : s.madeFor.length = e.assoc := congrArg Element.assoc (Option.some.inj hnew)
  omega

theorem Inv.start : Inv (State.start : State OtherInfo) where
  accords _ := rfl
  owned := by
    intro assoc as has
    cases has

theorem Inv.of_reach {yaz : YazOi OtherInfo} {rep : Rep} {max : Int} {s : State OtherInfo}
    (hmax : 0 < max)
    (h : Reach (step yaz rep) init (fun s a => Fixed rep max a ∧ Keeps s a) s) :
    Basic max s ∧ Inv s := by
  refine Reach.invariant (I := fun s => Basic max s ∧ Inv s) ?_ ?_ h
  · rintro s rfl
    exact ⟨Basic.start hmax, Inv.start⟩
  · rintro s a s' ⟨hb, hinv⟩ ⟨hfixed, hkeeps⟩ hstep
    exact ⟨hb.of_step yaz rep hmax hfixed hstep, hinv.of_step yaz rep hb hkeeps hstep⟩

/-- In a run whose steps keep the table it is always safe, and any other step ends that. -/
theorem connections_safe_iff (yaz : YazOi OtherInfo) (rep : Rep) {max : Int} {s : State OtherInfo}
    (hmax : 0 < max)
    (h : Reach (step yaz rep) init (fun s a => Fixed rep max a ∧ Keeps s a) s) :
    Safe max s ∧ ∀ a s', Fixed rep max a → step yaz rep s a = some s' →
      (Safe max s' ↔ Keeps s a) := by
  obtain ⟨hb, hinv⟩ := Inv.of_reach hmax h
  refine ⟨hinv.safe hb, ?_⟩
  intro a s' hfixed hstep
  constructor
  · intro hsafe
    cases a with
    | arrive p package => trivial
    | wake p => trivial
    | sendAndReceive p aborted => trivial
    | timedWake p inTime =>
      intro hin
      rw [step] at hstep
      split at hstep
      · rename_i package target maxSockets hp
        cases hstep
        rw [State.retryAssoc, if_pos hin] at hsafe
        refine Bool.eq_false_iff.mpr ?_
        intro hover
        exact hb.not_safe_of_overwrites hp hover hsafe
      · cases hstep
    | release p =>
      rw [step] at hstep
      split at hstep
      · rename_i package assoc hp
        cases hstep
        refine Bool.eq_false_iff.mpr ?_
        intro hleaves
        exact hinv.not_safe_of_leaves hb hp hleaves hsafe
      · cases hstep
  · intro hkeeps
    exact (hinv.of_step yaz rep hb hkeeps hstep).safe
      (hb.of_step yaz rep hmax hfixed hstep)

/-- A limit of one connection for each host, which inits name. -/
def oneSocket : Rep := ⟨1, "", ""⟩

def initOf (session : Nat) (host : String) : Package (List YazOi.Unit) :=
  ⟨session, false, 0, some (.init [(1, some host)])⟩

/-- What the frontend sends when a connection is closed. -/
def closeOf (session : Nat) : Package (List YazOi.Unit) := ⟨session, true, 0, none⟩

/-- Session 2 waits for room at a, then takes the place of session 1. -/
def inTurn : List (Label (List YazOi.Unit)) :=
  [.arrive 0 (initOf 1 "a"), .sendAndReceive 0 false, .release 0, .arrive 1 (initOf 2 "a"),
    .arrive 2 (closeOf 1), .sendAndReceive 2 false, .release 2, .timedWake 1 true]

/-- The same with a second init of session 2 for b while the first one waits. -/
def twoInits : List (Label (List YazOi.Unit)) :=
  [.arrive 0 (initOf 1 "a"), .sendAndReceive 0 false, .release 0, .arrive 1 (initOf 2 "a"),
    .arrive 3 (initOf 2 "b"), .arrive 2 (closeOf 1), .sendAndReceive 2 false, .release 2,
    .timedWake 1 true]

/-- The connection of session 1 fails while a search waits for it. -/
def lastOpen : List (Label (List YazOi.Unit)) :=
  [.arrive 0 (initOf 1 "a"), .arrive 1 ⟨1, false, 0, some (.other [])⟩, .sendAndReceive 0 true,
    .release 0, .wake 1, .sendAndReceive 1 false, .release 1]

theorem connections_safe_iff_inTurn :
    ∃ s : State (List YazOi.Unit), s.number "a" = 1 ∧ Safe 1 s ∧
      ∀ a s', Fixed oneSocket 1 a → step YazOi.units oneSocket s a = some s' →
        (Safe 1 s' ↔ Keeps s a) := by
  have hok : RunOk (step YazOi.units oneSocket) (fun s a => Fixed oneSocket 1 a ∧ Keeps s a)
      State.start inTurn := by decide +kernel
  have hrun : (run (step YazOi.units oneSocket) State.start inTurn).any
      (fun s => s.number "a" = 1) = true := by decide +kernel
  obtain ⟨s, hreach, hs⟩ := Reach.exists_of_run init_start hok hrun
  exact ⟨s, of_decide_eq_true hs, connections_safe_iff YazOi.units oneSocket (by decide) hreach⟩

/-- An Assoc that is lost, and a destroyed one that stays. -/
theorem connections_unsafe :
    (∃ s, Reach (step YazOi.units oneSocket) init
        (fun _ a => Fixed oneSocket 1 a) s ∧
      (s.assocs.lookup 1).isSome = true ∧ s.madeFor[1]? = some 2 ∧
      (s.clients.lookup 2).map Element.assoc = some 2) ∧
    ∃ s, Reach (step YazOi.units oneSocket) init
        (fun _ a => Fixed oneSocket 1 a) s ∧
      s.packages.entries.length = 0 ∧ (s.find 1).any (fun found => found.2.destroyed) = true := by
  constructor
  · have hok : RunOk (step YazOi.units oneSocket) (fun _ a => Fixed oneSocket 1 a) State.start
        twoInits := by decide +kernel
    have hrun : (run (step YazOi.units oneSocket) State.start twoInits).any
        (fun s => decide ((s.assocs.lookup 1).isSome = true ∧ s.madeFor[1]? = some 2 ∧
          (s.clients.lookup 2).map Element.assoc = some 2)) = true := by decide +kernel
    obtain ⟨s, hreach, hs⟩ := Reach.exists_of_run init_start hok hrun
    exact ⟨s, hreach, of_decide_eq_true hs⟩
  · have hok : RunOk (step YazOi.units oneSocket) (fun _ a => Fixed oneSocket 1 a) State.start
        lastOpen := by decide +kernel
    have hrun : (run (step YazOi.units oneSocket) State.start lastOpen).any
        (fun s => decide (s.packages.entries.length = 0 ∧
          (s.find 1).any (fun found => found.2.destroyed) = true)) = true := by decide +kernel
    obtain ⟨s, hreach, hs⟩ := Reach.exists_of_run init_start hok hrun
    exact ⟨s, hreach, of_decide_eq_true hs⟩

end Z3950Client
end Metaproxy
