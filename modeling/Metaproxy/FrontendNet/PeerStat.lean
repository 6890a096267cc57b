import Mathlib.Data.Multiset.AddSub
import Mathlib.Data.Multiset.Count
import Metaproxy.FrontendNet.Child

/-!
# FrontendNet.PeerStat

The connections of each peer (`PeerStat`), which the ports share, and what `sessionNotify` makes of
them. At any time there is one item for each connected peer, it has the number of the peer's
`ZAssocChild` objects, and that number is within the first `connect-total` that matches the peer
(`peer_totals_exact`).

`PeerStat.Counts` says which multiset of peers the items stand for: `add` and `remove` are its
`cons` and `erase`. The constructor of `ZAssocChild` adds and the destructor removes, so the
multiset is that of the objects there are, in whatever step they are deleted.
-/

namespace Metaproxy
namespace FrontendNet

open Lib
open Clients (Session SessionId)
open ThreadPool (Config)

/-! ## `PeerStat` -/

/-- `cnt` counts objects there are. -/
structure Item where
  peer : List Char
  cnt : Nat
deriving DecidableEq, Repr

/-- The items from the first on. -/
abbrev PeerStat := List Item

namespace PeerStat

def get : PeerStat → List Char → Nat
  | [], _ => 0
  | n :: next, peer => if peer = n.peer then n.cnt else get next peer

/-- The loop of `add`: `none` when no item has the peer. -/
def addLoop (peer : List Char) : PeerStat → Option (Nat × PeerStat)
  | [] => none
  | n :: next =>
    if peer = n.peer then some (n.cnt + 1, { n with cnt := n.cnt + 1 } :: next)
    else (addLoop peer next).map fun r => (r.1, n :: r.2)

def add (items : PeerStat) (peer : List Char) : Nat × PeerStat :=
  match addLoop peer items with
  | some r => r
  | none => (1, ⟨peer, 1⟩ :: items)

def remove : PeerStat → List Char → Nat × PeerStat
  | [], _ => (0, [])
  | n :: next, peer =>
    if peer = n.peer then
      if n.cnt - 1 = 0 then (0, next) else (n.cnt - 1, { n with cnt := n.cnt - 1 } :: next)
    else
      let r := remove next peer
      (r.1, n :: r.2)

def peers (items : PeerStat) : List (List Char) := items.map Item.peer

/-- The items are those of the multiset `live`. -/
structure Counts (items : PeerStat) (live : Multiset (List Char)) : Prop where
  nodup : items.peers.Nodup
  pos : ∀ n ∈ items, 0 < n.cnt
  get : ∀ peer, items.get peer = live.count peer

variable {items : PeerStat} {live rest : Multiset (List Char)} {peer : List Char}

theorem counts_empty : Counts [] 0 :=
  ⟨List.nodup_nil, List.forall_mem_nil _, fun _ => rfl⟩

theorem get_of_notMem (h : peer ∉ items.peers) : items.get peer = 0 := by
  induction items with
  | nil => rfl
  | cons n next ih =>
    simp only [peers, List.map_cons, List.mem_cons, not_or] at h
    rw [get, if_neg h.1]
    exact ih h.2

theorem addLoop_none (h : addLoop peer items = none) : peer ∉ items.peers := by
  induction items with
  | nil => exact List.not_mem_nil
  | cons n next ih =>
    rw [addLoop] at h
    split at h
    · cases h
    · rename_i hne
      simp only [peers, List.map_cons, List.mem_cons, not_or]
      exact ⟨hne, ih (Option.map_eq_none_iff.mp h)⟩

/-- The item of the peer counts one more, the others stay. -/
theorem addLoop_some {r : Nat × PeerStat} (h : addLoop peer items = some r) :
    r.2.peers = items.peers ∧
      (∀ q, r.2.get q = items.get q + if q = peer then 1 else 0) ∧
      ((∀ n ∈ items, 0 < n.cnt) → ∀ n ∈ r.2, 0 < n.cnt) := by
  induction items generalizing r with
  | nil => cases h
  | cons n next ih =>
    rw [addLoop] at h
    split at h
    · rename_i heq
      cases h
      refine ⟨rfl, fun q => ?_, fun hpos => ?_⟩
      · simp only [get, heq]
        split <;> rfl
      · exact List.forall_mem_cons.mpr ⟨Nat.succ_pos _, (List.forall_mem_cons.mp hpos).2⟩
    · rename_i hne
      obtain ⟨r', hr', rfl⟩ := Option.map_eq_some_iff.mp h
      obtain ⟨hpeers, hget, hpos'⟩ := ih hr'
      refine ⟨congrArg (n.peer :: ·) hpeers, fun q => ?_, fun hpos => ?_⟩
      · simp only [get]
        split
        · rename_i hq
          rw [if_neg (hq ▸ Ne.symm hne), Nat.add_zero]
        · exact hget q
      · have hpos := List.forall_mem_cons.mp hpos
        exact List.forall_mem_cons.mpr ⟨hpos.1, hpos' hpos.2⟩

theorem Counts.add (h : Counts items live) (peer : List Char) :
    Counts (items.add peer).2 (peer ::ₘ live) := by
  rw [PeerStat.add]
  cases hloop : addLoop peer items with
  | none =>
    have hnew := addLoop_none hloop
    refine ⟨List.nodup_cons.mpr ⟨hnew, h.nodup⟩,
      List.forall_mem_cons.mpr ⟨Nat.one_pos, h.pos⟩, fun q => ?_⟩
    by_cases hq : q = peer
    · subst hq
      rw [Multiset.count_cons_self, ← h.get, get_of_notMem hnew]
      exact if_pos rfl
    · rw [Multiset.count_cons_of_ne hq, ← h.get]
      exact if_neg hq
  | some r =>
    obtain ⟨hpeers, hget, hpos⟩ := addLoop_some hloop
    refine ⟨hpeers ▸ h.nodup, hpos h.pos, fun q => ?_⟩
    rw [hget q, h.get, Multiset.count_cons]

/-- The item of the peer counts one less and goes at 0, the others stay. -/
theorem remove_spec (hnodup : items.peers.Nodup) (peer : List Char) :
    (items.remove peer).2.peers.Sublist items.peers ∧
      (∀ q, (items.remove peer).2.get q = items.get q - if q = peer then 1 else 0) ∧
      ((∀ n ∈ items, 0 < n.cnt) → ∀ n ∈ (items.remove peer).2, 0 < n.cnt) := by
  induction items with
  | nil => exact ⟨List.Sublist.refl _, fun q => (Nat.zero_sub _).symm, id⟩
  | cons n next ih =>
    obtain ⟨hnew, hnext⟩ := List.nodup_cons.mp hnodup
    rw [remove]
    split
    · rename_i heq
      split
      · -- the last connection of the peer
        rename_i hzero
        refine ⟨List.sublist_cons_self _ _, fun q => ?_,
          fun hpos => (List.forall_mem_cons.mp hpos).2⟩
        rw [get]
        by_cases hq : q = n.peer
        · rw [if_pos hq, if_pos (hq.trans heq.symm), hq, hzero]
          exact get_of_notMem hnew
        · rw [if_neg hq, if_neg (heq ▸ hq)]
          rfl
      · rename_i hpos
        refine ⟨List.Sublist.refl _, fun q => ?_, fun hall => ?_⟩
        · simp only [get, heq]
          split <;> rfl
        · exact List.forall_mem_cons.mpr ⟨Nat.pos_of_ne_zero hpos, (List.forall_mem_cons.mp hall).2⟩
    · rename_i hne
      obtain ⟨hpeers, hget, hpos'⟩ := ih hnext
      refine ⟨hpeers.cons_cons _, fun q => ?_, fun hpos => ?_⟩
      · simp only [get]
        split
        · rename_i hq
          rw [if_neg (hq ▸ Ne.symm hne), Nat.sub_zero]
        · exact hget q
      · have hpos := List.forall_mem_cons.mp hpos
        exact List.forall_mem_cons.mpr ⟨hpos.1, hpos' hpos.2⟩

theorem Counts.remove (h : Counts items live) (peer : List Char) :
    Counts (items.remove peer).2 (live.erase peer) := by
  obtain ⟨hpeers, hget, hpos⟩ := remove_spec h.nodup peer
  refine ⟨h.nodup.sublist hpeers, hpos h.pos, fun q => ?_⟩
  rw [hget q, h.get]
  by_cases hq : q = peer
  · rw [hq, if_pos rfl, Multiset.count_erase_self]
  · rw [if_neg hq, Multiset.count_erase_of_ne hq, Nat.sub_zero]

/-- What the destructors of some objects do, one after the other. -/
def removeAll (items : PeerStat) (peers : List (List Char)) : PeerStat :=
  peers.foldl (fun items peer => (items.remove peer).2) items

theorem Counts.removeAll {peers : List (List Char)}
    (h : Counts items (rest + (peers : Multiset (List Char)))) :
    Counts (items.removeAll peers) rest := by
  induction peers generalizing items with
  | nil =>
    rw [Multiset.coe_nil, Multiset.add_zero] at h
    exact h
  | cons peer peers ih =>
    refine ih ?_
    have hremove := h.remove peer
    rwa [← Multiset.cons_coe, Multiset.add_cons, Multiset.erase_cons_head] at hremove

end PeerStat

/-! ## `ZAssocServer` -/

/-- The value of a `connect-total` is an `int`. -/
structure TotalPattern extends IpPattern where
  int : Util.toInt value = value

structure Limits where
  connectTotal : List TotalPattern
  connectMax : List IpPattern

/-- The connections and what is counted of them. -/
structure Server (ζ : Type*) where
  net : St ζ
  /-- `m_peer` of a connection. -/
  peer : SessionId → List Char
  peerStat : PeerStat

inductive ServerLabel (ζ : Type*) where
  /-- On any of the ports; `conSz` connections of the peer have been counted of late. -/
  | sessionNotify (peername : Option (List Char)) (port : List Char) (conSz : Int)
  | net (a : Label ζ)

/-- A peer name without the transport before it. -/
def peernameOf : Option (List Char) → List Char
  | none => ['u', 'n', 'k', 'n', 'o', 'w', 'n']
  | some peername =>
    match peername.dropWhile (· ≠ ':') with
    | [] => peername
    | _ :: cp => cp

variable {ζ : Type*}

section

variable (matchGlob : List Char → List Char → Bool)

/-- A connection is refused, or there is a new `ZAssocChild`. -/
def sessionNotify (limits : Limits) (t : Server ζ) (peername : Option (List Char))
    (port : List Char) (conSz : Int) : Server ζ :=
  let peername := peernameOf peername
  let totalSz := Util.toInt (t.peerStat.get peername)
  if refused matchGlob peername totalSz (limits.connectTotal.map (·.toIpPattern)) then t
  else if refused matchGlob peername conSz limits.connectMax then t
  else {
    net := connect t.net (peername ++ ' ' :: port)
    peer := Function.update t.peer (t.net.globalId + 1) peername
    peerStat := (t.peerStat.add peername).2 }

/-- The objects a step has deleted. -/
def destroyed (net net' : St ζ) : List SessionId := net.children.keys.filter fun c => !net'.alive c

/-- Connections are made by `sessionNotify` only. -/
def Server.step (cfg : Config) (rep : Rep) (limits : Limits) (t : Server ζ) :
    ServerLabel ζ → Option (Server ζ)
  | .sessionNotify peername port conSz =>
    if t.net.isFree then some (sessionNotify matchGlob limits t peername port conSz) else none
  | .net (.connect _) => none
  | .net a =>
    (FrontendNet.step matchGlob cfg rep t.net a).map fun net =>
      { t with net, peerStat := t.peerStat.removeAll ((destroyed t.net net).map t.peer) }

end

def Server.init (cfg : Config) (t : Server ζ) : Prop := FrontendNet.init cfg t.net ∧ t.peerStat = []

namespace Server

/-- How many `ZAssocChild` objects the peer has. -/
def live (t : Server ζ) (peer : List Char) : Nat :=
  (t.net.children.keys.filter fun c => t.peer c = peer).length

/-- The peers of all objects. -/
def livePeers (t : Server ζ) : Multiset (List Char) := (t.net.children.keys.map t.peer : List _)

theorem count_livePeers (t : Server ζ) (peer : List Char) :
    t.livePeers.count peer = t.live peer := by
  rw [livePeers, Multiset.coe_count, live, ← List.countP_eq_length_filter]
  exact (List.countP_map ..).trans (List.countP_congr fun c _ => by simp)

end Server

variable {matchGlob : List Char → List Char → Bool} {cfg : Config} {rep : Rep} {s s' : St ζ}

theorem mem_keys_iff {c : SessionId} : c ∈ s.children.keys ↔ s.alive c = true :=
  AList.mem_keys.symm.trans AList.lookup_isSome.symm

theorem alive_of_setChild {c c' : SessionId} {child child' : ZAssocChild}
    (hc : s.children.lookup c = some child) (h : (s.setChild c child').alive c' = true) :
    s.alive c' = true := by
  obtain ⟨x, hx⟩ := Option.isSome_iff_exists.mp h
  rcases Table.lookup_insert_iff.mp hx with ⟨rfl, -⟩ | ⟨-, hx⟩
  · exact Option.isSome_iff_exists.mpr ⟨_, hc⟩
  · exact Option.isSome_iff_exists.mpr ⟨x, hx⟩

theorem alive_of_deleteChild {c c' : SessionId} (h : (s.deleteChild c).alive c' = true) :
    s.alive c' = true := by
  obtain ⟨x, hx⟩ := Option.isSome_iff_exists.mp h
  exact Option.isSome_iff_exists.mpr ⟨x, Table.lookup_of_erase hx⟩

/-- Only a connection that is accepted adds a `ZAssocChild`. -/
theorem alive_of_step {a : Label ζ} (hne : ∀ address, a ≠ .connect address)
    (hs : FrontendNet.step matchGlob cfg rep s a = some s') :
    (∀ c, s'.alive c = true → s.alive c = true) ∧ s'.globalId = s.globalId := by
  cases step_happens hs with
  | connect address => exact absurd rfl (hne address)
  | recvGDU c child gdu conSz hc =>
    simp only [recvGDU]
    split
    · exact ⟨fun c' hc' => alive_of_setChild hc (alive_of_deleteChild hc'), rfl⟩
    · exact ⟨fun c' => alive_of_setChild hc, rfl⟩
  | failNotify c child a hc =>
    simp only [failNotify]
    split
    · split
      · exact ⟨fun c' => alive_of_deleteChild, rfl⟩
      · exact ⟨fun _ => id, rfl⟩
    · exact ⟨fun c' => alive_of_setChild hc, rfl⟩
  | pool a pool hout hpending => exact ⟨fun _ => id, rfl⟩
  | deliver a p rest pool hout hpool =>
    simp only [result]
    split
    · exact ⟨fun _ => id, rfl⟩
    · rename_i child hc
      cases (Package.answer _).1 <;> dsimp only [Option.elim] <;> split <;>
        exact ⟨fun c' => alive_of_setChild hc, rfl⟩
  | work w response closed s' hwork =>
    obtain ⟨pool, -, heq⟩ := Option.map_eq_some_iff.mp hwork
    split at heq <;> cases heq <;> exact ⟨fun _ => id, rfl⟩

/-! ## Runs -/

section

variable {limits : Limits} {t t' : Server ζ}

/-- Each object there was is still there or has been deleted. -/
theorem livePeers_net {net : St ζ} (h : ∀ c, net.alive c = true → t.net.alive c = true) :
    t.livePeers = { t with net }.livePeers + ((destroyed t.net net).map t.peer : List _) := by
  have hkept : (t.net.children.keys.filter fun c => net.alive c).Perm net.children.keys := by
    refine (List.perm_ext_iff_of_nodup (t.net.children.keys_nodup.filter _)
      net.children.keys_nodup).mpr fun c => ?_
    rw [List.mem_filter, mem_keys_iff, mem_keys_iff]
    exact ⟨And.right, fun hc => ⟨h c hc, hc⟩⟩
  have hall := List.filter_append_perm (fun c => net.alive c) t.net.children.keys
  have hperm := hall.symm.trans (hkept.append_right (destroyed t.net net))
  exact (Multiset.coe_eq_coe.mpr (hperm.map t.peer)).trans (congrArg _ List.map_append)

/-- A new object, which has an id that no object had. -/
theorem livePeers_connect (hnew : t.net.alive (t.net.globalId + 1) = false)
    (peername address : List Char) (stat : PeerStat) :
    (Server.mk (connect t.net address) (Function.update t.peer (t.net.globalId + 1) peername)
      stat).livePeers = peername ::ₘ t.livePeers := by
  have hmem : t.net.globalId + 1 ∉ t.net.children.keys := by
    rw [mem_keys_iff, hnew]
    exact Bool.false_ne_true
  have hkeys : (connect t.net address).children.keys =
      (t.net.globalId + 1) :: t.net.children.keys := by
    refine (AList.keys_insert _).trans (congrArg _ ?_)
    exact List.erase_of_not_mem hmem
  have hold : t.net.children.keys.map (Function.update t.peer (t.net.globalId + 1) peername) =
      t.net.children.keys.map t.peer := by
    refine List.map_congr_left fun c hc => Function.update_of_ne ?_ ..
    rintro rfl
    exact hmem hc
  simp only [Server.livePeers]
  rw [hkeys, List.map_cons, hold, Function.update_self]
  rfl

/-- A connection that is not refused is below the first pattern that matches. -/
theorem lt_of_refused {peername : List Char} {total : Int} {patterns : List TotalPattern}
    {it : TotalPattern}
    (h : refused matchGlob peername total (patterns.map (·.toIpPattern)) = false)
    (hfirst : patterns.find? (fun it => Util.matchIp matchGlob it.pattern peername) = some it) :
    total < it.value := by
  induction patterns with
  | nil => cases hfirst
  | cons first rest ih =>
    rw [List.map_cons, refused] at h
    rw [List.find?_cons] at hfirst
    split at hfirst
    · rename_i hm
      cases hfirst
      rw [if_pos hm] at h
      simpa using h
    · rename_i hm
      rw [if_neg (Bool.eq_false_iff.mp hm)] at h
      exact ih h hfirst

/-- What is counted, and that the first `connect-total` holds. -/
structure Exact (matchGlob : List Char → List Char → Bool) (limits : Limits) (t : Server ζ) :
    Prop where
  counts : t.peerStat.Counts t.livePeers
  ids : ∀ c, t.net.alive c = true → c ≤ t.net.globalId
  within : ∀ peer it,
    limits.connectTotal.find? (fun it => Util.matchIp matchGlob it.pattern peer) = some it →
      (t.live peer : Int) ≤ it.value

theorem exact_of_init (hvalues : ∀ it ∈ limits.connectTotal, 0 ≤ it.value)
    (h : Server.init cfg t) : Exact matchGlob limits t := by
  obtain ⟨⟨-, hchildren, -⟩, hstat⟩ := h
  have hkeys : t.net.children.keys = [] := by
    rw [hchildren]
    exact AList.keys_empty
  have hlive : t.livePeers = 0 := by
    rw [Server.livePeers, hkeys]
    rfl
  refine ⟨?_, fun c hc => ?_, fun peer it hit => ?_⟩
  · rw [hstat, hlive]
    exact PeerStat.counts_empty
  · rw [← mem_keys_iff, hkeys] at hc
    exact absurd hc List.not_mem_nil
  · rw [← Server.count_livePeers, hlive, Multiset.count_zero]
    exact hvalues it (List.mem_of_find?_eq_some hit)

theorem sessionNotify_exact (h : Exact matchGlob limits t) (peername : Option (List Char))
    (port : List Char) (conSz : Int) :
    Exact matchGlob limits (sessionNotify matchGlob limits t peername port conSz) := by
  rw [sessionNotify]
  generalize peernameOf peername = peername
  split
  · exact h
  · split
    · exact h
    · rename_i htotal _
      have hnew : t.net.alive (t.net.globalId + 1) = false := by
        refine Bool.eq_false_iff.mpr fun halive => ?_
        exact Nat.not_succ_le_self _ (h.ids _ halive)
      have hlive := livePeers_connect hnew peername (peername ++ ' ' :: port)
        (t.peerStat.add peername).2
      refine ⟨hlive ▸ h.counts.add peername, fun c hc => ?_, fun peer it hit => ?_⟩
      · obtain ⟨x, hx⟩ := Option.isSome_iff_exists.mp hc
        rcases Table.lookup_insert_iff.mp hx with ⟨rfl, -⟩ | ⟨-, hx⟩
        · exact Nat.le_refl _
        · exact Nat.le_succ_of_le (h.ids c (Option.isSome_iff_exists.mpr ⟨x, hx⟩))
      · have hold := h.within peer it hit
        rw [← Server.count_livePeers] at hold ⊢
        rw [hlive]
        by_cases hp : peer = peername
        · -- the total is an `int`, as it is at most the value
          subst hp
          have hint : Util.toInt (t.peerStat.get peer) = t.livePeers.count peer := by
            rw [h.counts.get]
            have hhi := Util.toInt_lt it.value
            rw [it.int] at hhi
            exact Util.toInt_eq (by omega) (by omega)
          have hlt := lt_of_refused (Bool.eq_false_iff.mpr htotal) hit
          rw [hint] at hlt
          rw [Multiset.count_cons_self]
          omega
        · rw [Multiset.count_cons_of_ne hp]
          exact hold

theorem exact_step {a : ServerLabel ζ} (h : Exact matchGlob limits t)
    (hs : t.step matchGlob cfg rep limits a = some t') : Exact matchGlob limits t' := by
  cases a with
  | sessionNotify peername port conSz =>
    simp only [Server.step] at hs
    split at hs
    · cases hs
      exact sessionNotify_exact h peername port conSz
    · cases hs
  | net a =>
    have hnet : ∃ net, FrontendNet.step matchGlob cfg rep t.net a = some net ∧
        (∀ address, a ≠ .connect address) ∧ { t with
          net, peerStat := t.peerStat.removeAll ((destroyed t.net net).map t.peer) } = t' := by
      cases a with
      | connect address => cases hs
      | _ =>
        obtain ⟨net, hnet, heq⟩ := Option.map_eq_some_iff.mp hs
        refine ⟨net, hnet, fun address h => ?_, heq⟩
        cases h
    obtain ⟨net, hnet, hne, rfl⟩ := hnet
    obtain ⟨halive, hglobal⟩ := alive_of_step hne hnet
    have hlive := livePeers_net halive
    refine ⟨?_, fun c hc => ?_, fun peer it hit => ?_⟩
    · exact PeerStat.Counts.removeAll (hlive ▸ h.counts)
    · exact hglobal ▸ h.ids c (halive c hc)
    · have hold := h.within peer it hit
      rw [← Server.count_livePeers, hlive, Multiset.count_add, Server.count_livePeers] at hold
      have hle : (Server.live { t with net } peer : Int) ≤ it.value := by omega
      exact hle

end

/-- In every state there is at most one item for each peer, it counts the peer's `ZAssocChild`
objects, and they are no more than the first `connect-total` that matches the peer allows. -/
theorem peer_totals_exact (matchGlob : List Char → List Char → Bool) (cfg : Config) (rep : Rep)
    (limits : Limits) (hvalues : ∀ it ∈ limits.connectTotal, 0 ≤ it.value) {t : Server ζ}
    (h : Reach (Server.step matchGlob cfg rep limits) (Server.init cfg) Any t) :
    t.peerStat.peers.Nodup ∧ (∀ peer, t.peerStat.get peer = t.live peer) ∧
      ∀ peer it,
        limits.connectTotal.find? (fun it => Util.matchIp matchGlob it.pattern peer) = some it →
          (t.live peer : Int) ≤ it.value := by
  have hexact : Exact matchGlob limits t :=
    h.invariant (fun _ => exact_of_init hvalues) fun _ _ _ hi _ hs => exact_step hi hs
  exact ⟨hexact.counts.nodup, fun peer => (hexact.counts.get peer).trans (t.count_livePeers peer),
    hexact.within⟩

/-! ### One connection for each peer -/

def oneForEach : Limits := ⟨[⟨⟨[], 1⟩, by decide⟩], []⟩

def tcp : Option (List Char) := some ['t', 'c', 'p', ':', 'p']

/-- The peer `p` is refused a second connection until the first has gone, which a report ends. -/
def onceMore : List (ServerLabel Empty) :=
  [.sessionNotify tcp ['@'] 0, .sessionNotify none ['@'] 0, .sessionNotify tcp ['#'] 0,
    .net (.recvGDU 1 (some (.httpRequest ⟨['/', 's'], none⟩)) 0), .sessionNotify tcp ['#'] 0]

theorem peer_totals_exact_once :
    ∃ t : Server Empty, t.peerStat = [⟨['p'], 1⟩, ⟨peernameOf none, 1⟩] ∧ t.net.globalId = 3 ∧
      t.peerStat.peers.Nodup ∧ t.peerStat.get ['p'] = t.live ['p'] ∧ (t.live ['p'] : Int) ≤ 1 := by
  have hrun : (run (Server.step (fun _ _ => false) ⟨1, 1⟩ ⟨['/', 's'], []⟩ oneForEach)
      ⟨.start ⟨1, 1⟩, fun _ => [], []⟩ onceMore).any
      (fun t => t.peerStat = [⟨['p'], 1⟩, ⟨peernameOf none, 1⟩] ∧ t.net.globalId = 3) := by
    decide
  have hinit : Server.init ⟨1, 1⟩ (⟨.start ⟨1, 1⟩, fun _ => [], []⟩ : Server Empty) :=
    ⟨init_start ⟨1, 1⟩, rfl⟩
  obtain ⟨t, hr, ht⟩ := Reach.exists_of_run hinit (runOk_any _ _) hrun
  have ht := of_decide_eq_true ht
  obtain ⟨hnodup, hget, hwithin⟩ :=
    peer_totals_exact _ _ _ oneForEach (List.forall_mem_singleton.mpr (by decide)) hr
  exact ⟨t, ht.1, ht.2, hnodup, hget _, hwithin ['p'] ⟨⟨[], 1⟩, by decide⟩ rfl⟩

end FrontendNet
end Metaproxy
