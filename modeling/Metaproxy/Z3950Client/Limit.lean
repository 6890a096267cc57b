import Metaproxy.Z3950Client.Rep

/-!
# Z3950Client.Limit

What holds in every run with the same `max_sockets` for all packages, whatever is overwritten:
`m_clients` points to Assocs that are not deleted, each made for its session, and there are never
more than `max_sockets` for a host (`Basic`, `number_le`).
-/

namespace Metaproxy
namespace Z3950Client

open Lib

variable {OtherInfo : Type*}

structure Basic (max : Int) (s : State OtherInfo) : Prop where
  madeFor : ∀ session e, s.clients.lookup session = some e → s.madeFor[e.assoc]? = some session
  stored : ∀ session e, s.clients.lookup session = some e →
    ∃ as, s.assocs.lookup e.assoc = some as
  number : ∀ target, (s.number target : Int) ≤ max
  timed : ∀ p h target maxSockets, s.packages.lookup p = some h →
    h.pc = .timed target maxSockets → maxSockets = max
  deleted : ∀ as ∈ s.deleted, as.queueLen = 0

/-- The packages that come have the limit `max`. -/
def Fixed (rep : Rep) (max : Int) : Label OtherInfo → Prop
  | .arrive _ package => rep.maxSocketsOf package = max
  | _ => True

namespace State

variable {s : State OtherInfo}

theorem find_eq_some_iff {session : Nat} {e : Element} {as : Assoc} :
    s.find session = some (e, as) ↔
      s.clients.lookup session = some e ∧ s.assocs.lookup e.assoc = some as := by
  unfold find
  rw [Option.bind_eq_some_iff]
  constructor
  · rintro ⟨e', he, has⟩
    obtain ⟨as', has, heq⟩ := Option.map_eq_some_iff.mp has
    cases heq
    exact ⟨he, has⟩
  · rintro ⟨he, has⟩
    exact ⟨e, he, by rw [has]; rfl⟩

theorem find_congr {s' : State OtherInfo} {session : Nat}
    (hclients : s'.clients.lookup session = s.clients.lookup session)
    (hassocs : ∀ e, s.clients.lookup session = some e →
      s'.assocs.lookup e.assoc = s.assocs.lookup e.assoc) :
    s'.find session = s.find session := by
  unfold find
  rw [hclients]
  cases h : s.clients.lookup session with
  | none => rfl
  | some e => simp only [Option.bind_some, hassocs e h]

end State

namespace Basic

variable {max : Int} {s : State OtherInfo}

/-- Two sessions have two Assocs. -/
theorem ne_assoc (h : Basic max s) {session session' : Nat} {e e' : Element}
    (he : s.clients.lookup session = some e) (he' : s.clients.lookup session' = some e')
    (hne : session' ≠ session) : e'.assoc ≠ e.assoc := by
  intro heq
  have hmade := h.madeFor session e he
  have hmade' := h.madeFor session' e' he'
  rw [heq, hmade] at hmade'
  exact hne (Option.some.inj hmade').symm

theorem lt_made (h : Basic max s) {session : Nat} {e : Element}
    (he : s.clients.lookup session = some e) : e.assoc < s.madeFor.length :=
  (List.getElem?_eq_some_iff.mp (h.madeFor session e he)).1

theorem find_eq_none (h : Basic max s) {session : Nat} (hfind : s.find session = none) :
    s.clients.lookup session = none := by
  cases he : s.clients.lookup session with
  | none => rfl
  | some e =>
    obtain ⟨as, has⟩ := h.stored session e he
    rw [State.find_eq_some_iff.mpr ⟨he, has⟩] at hfind
    cases hfind

/-! ## The operations -/

theorem find_setAssoc (h : Basic max s) {session : Nat} {e : Element}
    (he : s.clients.lookup session = some e) (as : Assoc) (session' : Nat) :
    (s.setAssoc e.assoc as).find session' =
      if session' = session then some (e, as) else s.find session' := by
  by_cases hs : session' = session
  · rw [if_pos hs, hs]
    exact State.find_eq_some_iff.mpr ⟨he, AList.lookup_insert _⟩
  · rw [if_neg hs]
    refine State.find_congr rfl ?_
    intro e' he'
    exact AList.lookup_insert_ne (h.ne_assoc he he' hs)

theorem find_newAssoc (h : Basic max s) (session : Nat) (target : String) (session' : Nat) :
    (s.newAssoc session target).find session' =
      if session' = session then
        some (⟨((s.clients.lookup session).map Element.it).getD s.madeFor.length,
          s.madeFor.length⟩, ⟨target, true, false, 1⟩)
      else s.find session' := by
  by_cases hs : session' = session
  · rw [if_pos hs, hs]
    exact State.find_eq_some_iff.mpr ⟨AList.lookup_insert _, AList.lookup_insert _⟩
  · rw [if_neg hs]
    refine State.find_congr (AList.lookup_insert_ne hs) ?_
    intro e' he'
    exact AList.lookup_insert_ne (h.lt_made he').ne

theorem find_deleteAssoc (h : Basic max s) {session : Nat} {e : Element}
    (he : s.clients.lookup session = some e) (as : Assoc) (session' : Nat) :
    (s.deleteAssoc session e.assoc as).find session' =
      if session' = session then none else s.find session' := by
  by_cases hs : session' = session
  · rw [if_pos hs, hs]
    have hnone : (s.clients.erase session).lookup session = none := AList.lookup_erase _ _
    simp only [State.find, State.deleteAssoc, hnone, Option.bind_none]
  · rw [if_neg hs]
    refine State.find_congr (AList.lookup_erase_ne hs) ?_
    intro e' he'
    exact AList.lookup_erase_ne (h.ne_assoc he he' hs)

theorem setAssoc (h : Basic max s) {session : Nat} {e : Element} {as as' : Assoc}
    (hfind : s.find session = some (e, as)) (hhost : as'.host = as.host) :
    Basic max (s.setAssoc e.assoc as') where
  madeFor := h.madeFor
  stored := by
    intro session' e' he'
    by_cases ha : e'.assoc = e.assoc
    · rw [ha]
      exact ⟨as', AList.lookup_insert _⟩
    · obtain ⟨as1, has1⟩ := h.stored session' e' he'
      exact ⟨as1, (AList.lookup_insert_ne ha).trans has1⟩
  number := by
    intro target
    have hsame : (s.setAssoc e.assoc as').number target = s.number target := by
      refine Table.count_congr ?_
      intro session' e' _
      unfold State.points
      by_cases ha : e'.assoc = e.assoc
      · have hlookup : (s.assocs.insert e.assoc as').lookup e.assoc = some as' :=
          AList.lookup_insert _
        rw [State.setAssoc, ha, hlookup, (State.find_eq_some_iff.mp hfind).2, Option.any_some,
          Option.any_some, hhost]
      · simp only [State.setAssoc, AList.lookup_insert_ne ha]
    rw [hsame]
    exact h.number target
  timed := h.timed
  deleted := h.deleted

theorem newAssoc (h : Basic max s) (hmax : 0 < max) {session : Nat} {target : String}
    (hroom : s.Room target max) : Basic max (s.newAssoc session target) where
  madeFor := by
    intro session' e' he'
    obtain ⟨rfl, rfl⟩ | ⟨-, he'⟩ := Table.lookup_insert_iff.mp he'
    · exact List.getElem?_concat_length
    · exact (List.getElem?_append_left (h.lt_made he')).trans (h.madeFor session' e' he')
  stored := by
    intro session' e' he'
    obtain ⟨-, rfl⟩ | ⟨-, he'⟩ := Table.lookup_insert_iff.mp he'
    · exact ⟨_, AList.lookup_insert _⟩
    · obtain ⟨as, has⟩ := h.stored session' e' he'
      exact ⟨as, (AList.lookup_insert_ne (h.lt_made he').ne).trans has⟩
  number := by
    intro target'
    have hold : ∀ session' e', (s.clients.erase session).lookup session' = some e' →
        (s.newAssoc session target).points (fun as => as.host = target') e' =
          s.points (fun as => as.host = target') e' := by
      intro session' e' he'
      have hne := (h.lt_made (Table.lookup_of_erase he')).ne
      simp only [State.points, State.newAssoc, AList.lookup_insert_ne hne]
    have herase := Table.count_erase (s.points fun as => as.host = target') s.clients session
    have hnumber : (s.newAssoc session target).number target' =
        Table.count (s.points fun as => as.host = target') (s.clients.erase session) +
          if target = target' then 1 else 0 := by
      refine (Table.count_insert _ _ _ _).trans ?_
      rw [Table.count_congr hold]
      have hlookup : (s.assocs.insert s.madeFor.length ⟨target, true, false, 1⟩).lookup
          s.madeFor.length = some (⟨target, true, false, 1⟩ : Assoc) := AList.lookup_insert _
      simp only [State.points, State.newAssoc, hlookup, Option.any_some, decide_eq_true_eq]
    have hle := h.number target'
    rw [hnumber]
    unfold State.number at hle
    by_cases ht : target = target'
    · obtain hzero | hlt := hroom
      · omega
      · rw [ht] at hlt
        unfold State.number at hlt
        rw [if_pos ht]
        omega
    · rw [if_neg ht]
      omega
  timed := h.timed
  deleted := h.deleted

theorem deleteAssoc (h : Basic max s) {session : Nat} {e : Element} {as : Assoc}
    (he : s.clients.lookup session = some e) (hlen : as.queueLen = 0) :
    Basic max (s.deleteAssoc session e.assoc as) where
  madeFor session' e' he' := h.madeFor session' e' (Table.lookup_of_erase he')
  stored := by
    intro session' e' he'
    obtain ⟨hs, he'⟩ := Table.lookup_erase_iff.mp he'
    obtain ⟨as', has'⟩ := h.stored session' e' he'
    exact ⟨as', (AList.lookup_erase_ne (h.ne_assoc he he' hs)).trans has'⟩
  number := by
    intro target
    have hold : ∀ session' e', (s.clients.erase session).lookup session' = some e' →
        (s.deleteAssoc session e.assoc as).points (fun as => as.host = target) e' =
          s.points (fun as => as.host = target) e' := by
      intro session' e' he'
      obtain ⟨hs, he'⟩ := Table.lookup_erase_iff.mp he'
      simp only [State.points, State.deleteAssoc, AList.lookup_erase_ne (h.ne_assoc he he' hs)]
    have herase := Table.count_erase (s.points fun as => as.host = target) s.clients session
    have hnumber : (s.deleteAssoc session e.assoc as).number target =
        Table.count (s.points fun as => as.host = target) (s.clients.erase session) :=
      Table.count_congr hold
    have hle := h.number target
    rw [hnumber]
    unfold State.number at hle
    omega
  timed := h.timed
  deleted := by
    intro as' hmem
    rw [State.deleteAssoc, List.mem_append, List.mem_singleton] at hmem
    obtain hmem | rfl := hmem
    · exact h.deleted as' hmem
    · exact hlen

theorem setPackage (h : Basic max s) (p : Nat) {k : Held OtherInfo}
    (hk : ∀ target maxSockets, k.pc = .timed target maxSockets → maxSockets = max) :
    Basic max (s.setPackage p k) where
  madeFor := h.madeFor
  stored := h.stored
  number := h.number
  timed := by
    intro q k' target maxSockets hq
    obtain ⟨-, rfl⟩ | ⟨-, hq⟩ := Table.lookup_insert_iff.mp hq
    · exact hk target maxSockets
    · exact h.timed q k' target maxSockets hq
  deleted := h.deleted

theorem drop (h : Basic max s) (p : Nat) : Basic max (s.drop p) where
  madeFor := h.madeFor
  stored := h.stored
  number := h.number
  timed q k target maxSockets hq := h.timed q k target maxSockets (Table.lookup_of_erase hq)
  deleted := h.deleted

/-! ## The steps -/

theorem takeAssoc (h : Basic max s) {session : Nat} {e : Element} {as as' : Assoc} (p : Nat)
    (package : Package OtherInfo) (hfind : s.find session = some (e, as))
    (hhost : as'.host = as.host) : Basic max (State.settle p package (s.takeAssoc e as')) := by
  unfold State.takeAssoc
  split
  · refine (h.setAssoc hfind hhost).setPackage p ?_
    intro _ _ hpc
    cases hpc
  · have hhost' : ({ as' with inUse := true } : Assoc).host = as.host := hhost
    refine (h.setAssoc hfind hhost').setPackage p ?_
    intro _ _ hpc
    cases hpc

theorem openAssoc (h : Basic max s) (hmax : 0 < max) (p : Nat) (package : Package OtherInfo)
    (session : Nat) (target : String) :
    Basic max (State.settle p package (s.openAssoc session target max)) := by
  unfold State.openAssoc
  split
  · rename_i hroom
    refine (h.newAssoc hmax hroom).setPackage p ?_
    intro _ _ hpc
    cases hpc
  · split
    · exact h.drop p
    · refine h.setPackage p ?_
      intro _ _ hpc
      cases hpc
      rfl

theorem releaseAssoc (h : Basic max s) (package : Package OtherInfo) :
    Basic max (s.releaseAssoc package) := by
  unfold State.releaseAssoc
  split
  · exact h
  · rename_i e as hfind
    simp only
    split
    · split
      · rename_i hlen
        exact h.deleteAssoc (State.find_eq_some_iff.mp hfind).1 hlen
      · exact h.setAssoc hfind rfl
    · exact h.setAssoc hfind rfl

theorem of_step (yaz : YazOi OtherInfo) (rep : Rep) (hmax : 0 < max) {a : Label OtherInfo}
    {s' : State OtherInfo} (h : Basic max s) (hfixed : Fixed rep max a)
    (hstep : step yaz rep s a = some s') : Basic max s' := by
  cases a with
  | arrive p package =>
    rw [step] at hstep
    split at hstep
    · cases hstep
    · obtain ⟨e, as, hfind, rfl⟩ | ⟨-, rfl | ⟨package', target, -, rfl⟩⟩ :=
        State.settle_getAssoc yaz rep s p package (Option.some.inj hstep)
      · exact h.takeAssoc p package hfind rfl
      · exact h.drop p
      · have hmaxSockets : rep.maxSocketsOf package = max := hfixed
        rw [hmaxSockets]
        exact h.openAssoc hmax p package' package.session target
  | wake p =>
    rw [step] at hstep
    split at hstep
    · rename_i package it hp
      split at hstep
      · rename_i e as hfind
        split at hstep
        · cases hstep
          exact h.takeAssoc p package hfind rfl
        · cases hstep
      · cases hstep
    · cases hstep
  | timedWake p inTime =>
    rw [step] at hstep
    split at hstep
    · rename_i package target maxSockets hp
      cases hstep
      cases h.timed p _ target maxSockets hp rfl
      unfold State.retryAssoc
      split
      · exact h.openAssoc hmax p package package.session target
      · exact h.drop p
    · cases hstep
  | sendAndReceive p aborted =>
    rw [step] at hstep
    split at hstep
    · obtain ⟨as, -, rfl⟩ := Option.map_eq_some_iff.mp hstep
      refine h.setPackage p ?_
      intro _ _ hpc
      cases hpc
    · cases hstep
  | release p =>
    rw [step] at hstep
    split at hstep
    · cases hstep
      exact (h.releaseAssoc _).drop p
    · cases hstep

theorem start (hmax : 0 < max) : Basic max (State.start : State OtherInfo) where
  madeFor := by
    intro session e he
    cases he
  stored := by
    intro session e he
    cases he
  number _ := hmax.le
  timed := by
    intro p h target maxSockets hp
    cases hp
  deleted := by
    intro as hmem
    cases hmem

end Basic

theorem Basic.of_reach {yaz : YazOi OtherInfo} {rep : Rep} {max : Int} {s : State OtherInfo}
    (hmax : 0 < max)
    (h : Reach (step yaz rep) init (fun _ a => Fixed rep max a) s) : Basic max s := by
  refine h.invariant ?_ ?_
  · rintro s rfl
    exact Basic.start hmax
  · intro s a s' hbasic hfixed hstep
    exact hbasic.of_step yaz rep hmax hfixed hstep

/-- In every run with the same limit for all packages, no host has more Assocs than that. -/
theorem number_le {yaz : YazOi OtherInfo} {rep : Rep} {max : Int} {s : State OtherInfo}
    (hmax : 0 < max)
    (h : Reach (step yaz rep) init (fun _ a => Fixed rep max a) s) (host : String) :
    (s.number host : Int) ≤ max :=
  (Basic.of_reach hmax h).number host

end Z3950Client
end Metaproxy
