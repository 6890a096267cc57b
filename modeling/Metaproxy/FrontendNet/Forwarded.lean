import Metaproxy.FrontendNet.Child

/-!
# FrontendNet.Forwarded

`X-Forwarded-For` does not hide the peer (`peer_not_spoofed`). From the accept on, a connection
keeps the address it was given, and each of its packages has that address, with the header of its
own request in front of it. So `http-req-max` counts and matches the peer, and the filters that tell
a server about the client end what they say with the peer.

`KeepsAddress` is the invariant. Headers do not pile up: `requestOrigin` starts from the address of
the connection each time.
-/

namespace Metaproxy

/-- What a client is said to be: what is there already and the peer. -/
def pcomb (peerName1 : Option (List Char)) (peerName2 : List Char) : List Char :=
  match peerName1 with
  | some peerName1 => peerName1 ++ [',', ' '] ++ peerName2
  | none => peerName2

/-- The `X-Forwarded-For` that `http_client` sends. -/
def HttpClient.xForwardedFor (enabled : Bool) (header : Option (List Char)) (origin : Origin) :
    Option (List Char) :=
  if enabled then some (pcomb header origin.getAddress) else header

/-- The client IP that `z3950_client` puts in an init request. -/
def Z3950Client.userinfoClientIp (enabled : Bool) (oi : Option (List Char)) (origin : Origin) :
    Option (List Char) :=
  if enabled ∧ origin.getAddress ≠ [] then some (pcomb oi origin.getAddress) else oi

namespace FrontendNet

open Lib
open Clients (Session SessionId)
open ThreadPool (Config Observer)

variable {ζ : Type*} {matchGlob : List Char → List Char → Bool} {cfg : Config} {rep : Rep}
  {s s' : St ζ} {c id : SessionId} {child child' : ZAssocChild} {o : Origin} {since : Nat}

/-- The address of a connection, and that address with a header in front. -/
inductive FromConnection (o : Origin) : Origin → Prop where
  | plain : FromConnection o o
  | forwarded (header : List Char) (id : Nat) : FromConnection o (o.setTcpipAddress header id)

theorem requestOrigin_from (child : ZAssocChild) (gdu : Option (Gdu ζ)) :
    FromConnection child.origin (requestOrigin child gdu) := by
  cases gdu with
  | none => exact .plain
  | some gdu =>
    cases gdu with
    | z3950 apdu => exact .plain
    | httpResponse code => exact .plain
    | httpRequest hreq =>
      simp only [requestOrigin]
      split
      · exact .forwarded _ _
      · exact .plain

section

variable {peer port : List Char}

/-- What `ZAssocChild` makes of the peer and the port. -/
def connectionOrigin (peer port : List Char) (id : SessionId) : Origin :=
  Origin.new.setTcpipAddress (peer ++ ' ' :: port) id

theorem FromConnection.addresses (hpeer : peer ≠ []) (hblank : ' ' ∉ peer) (hport : ' ' ∉ port)
    (h : FromConnection (connectionOrigin peer port id) o) :
    o.getAddress = peer ∧ o.getBindAddress = port := by
  cases h with
  | plain => exact ⟨Origin.getAddress_pair hpeer hblank hport rfl,
      Origin.getBindAddress_pair hpeer hport rfl⟩
  | forwarded header id' =>
    have haddress : ((connectionOrigin peer port id).setTcpipAddress header id').address =
        header ++ ' ' :: (peer ++ ' ' :: port) := if_neg Origin.append_blank_ne_nil
    exact ⟨Origin.getAddress_append hblank hport haddress,
      Origin.getBindAddress_append hport haddress⟩

end

/-! ## Runs -/

/-- The connection `id` has the address `o`, and so have the packages made for it since. -/
structure KeepsAddress (id : SessionId) (o : Origin) (since : Nat) (s : St ζ) : Prop where
  /-- The id is not given again. -/
  id_le : id ≤ s.globalId
  own : ∀ c child, s.children.lookup c = some child → child.session.id = c
  origin : ∀ child, s.children.lookup id = some child → child.origin = o
  packages : ∀ p, since ≤ p → p < s.made → (s.packages p).session.id = id →
    FromConnection o (s.packages p).origin

theorem KeepsAddress.setChild (h : KeepsAddress id o since s)
    (hc : s.children.lookup c = some child) (child' : ZAssocChild)
    (hid : child'.session.id = child.session.id) (horigin : child'.origin = child.origin) :
    KeepsAddress id o since (s.setChild c child') where
  id_le := h.id_le
  own c' x hx := by
    rcases Table.lookup_insert_iff.mp hx with ⟨rfl, rfl⟩ | ⟨-, hx⟩
    · exact hid.trans (h.own _ _ hc)
    · exact h.own _ _ hx
  origin x hx := by
    rcases Table.lookup_insert_iff.mp hx with ⟨rfl, rfl⟩ | ⟨-, hx⟩
    · exact horigin.trans (h.origin _ hc)
    · exact h.origin _ hx
  packages := h.packages

theorem KeepsAddress.deleteChild (h : KeepsAddress id o since s) (c : SessionId) :
    KeepsAddress id o since (s.deleteChild c) where
  id_le := h.id_le
  own c' x hx := h.own c' x (Table.lookup_of_erase hx)
  origin x hx := h.origin x (Table.lookup_of_erase hx)
  packages := h.packages

theorem KeepsAddress.newPackage (h : KeepsAddress id o since s) (pkg : Package ζ)
    (hpkg : pkg.session.id = id → FromConnection o pkg.origin) :
    KeepsAddress id o since (s.newPackage pkg) where
  id_le := h.id_le
  own := h.own
  origin := h.origin
  packages p hp hlt := by
    by_cases hne : p = s.made
    · subst hne
      simpa [St.newPackage] using hpkg
    · have hold : (s.newPackage pkg).packages p = s.packages p := Function.update_of_ne hne ..
      rw [hold]
      exact h.packages p hp (Nat.lt_of_le_of_ne (Nat.le_of_lt_succ hlt) hne)

/-- Neither the pool nor the log is looked at. -/
theorem KeepsAddress.congr (h : KeepsAddress id o since s) (hglobal : s'.globalId = s.globalId)
    (hchildren : s'.children = s.children) (hpackages : s'.packages = s.packages)
    (hmade : s'.made = s.made) : KeepsAddress id o since s' where
  id_le := hglobal ▸ h.id_le
  own := hchildren ▸ h.own
  origin := hchildren ▸ h.origin
  packages := by
    rw [hpackages, hmade]
    exact h.packages

theorem KeepsAddress.record (h : KeepsAddress id o since s) (e : Event ζ) :
    KeepsAddress id o since (s.record e) :=
  h.congr rfl rfl rfl rfl

theorem KeepsAddress.child_origin (h : KeepsAddress id o since s)
    (hc : s.children.lookup c = some child) (hid : child.session.id = id) : child.origin = o := by
  have heq : c = id := (h.own c child hc).symm.trans hid
  subst heq
  exact h.origin child hc

theorem connect_keeps (h : KeepsAddress id o since s) (address : List Char) :
    KeepsAddress id o since (connect s address) where
  id_le := Nat.le_succ_of_le h.id_le
  own c x hx := by
    rcases Table.lookup_insert_iff.mp hx with ⟨rfl, rfl⟩ | ⟨-, hx⟩
    · rfl
    · exact h.own _ _ hx
  origin x hx := by
    rcases Table.lookup_insert_iff.mp hx with ⟨heq, -⟩ | ⟨-, hx⟩
    · exact absurd (heq ▸ h.id_le) (Nat.not_succ_le_self _)
    · exact h.origin _ hx
  packages := h.packages

theorem recvGDU_keeps (h : KeepsAddress id o since s) (hc : s.children.lookup c = some child)
    (gdu : Option (Gdu ζ)) (conSz : Int) :
    KeepsAddress id o since (recvGDU matchGlob cfg rep s c child gdu conSz) := by
  have hchild := h.setChild hc { child with noRequests := child.noRequests + 1 } rfl rfl
  have hnew := hchild.newPackage ⟨child.session, requestOrigin child gdu, gdu, none⟩
    fun hid => h.child_origin hc hid ▸ requestOrigin_from child gdu
  simp only [recvGDU]
  split
  · exact ((hnew.record _).record _).deleteChild c
  · exact hnew.congr rfl rfl rfl rfl

theorem failNotify_keeps (h : KeepsAddress id o since s) (hc : s.children.lookup c = some child) :
    KeepsAddress id o since (failNotify cfg s c child) := by
  simp only [failNotify]
  split
  · split
    · exact h.deleteChild c
    · exact h
  · let session : Session := { child.session with isClosed := true }
    have hnew := h.newPackage ⟨session, child.origin, none, none⟩
      fun hid => h.child_origin hc hid ▸ .plain
    have hset := hnew.setChild hc { child with
      noRequests := child.noRequests + 1 - (s.pool.input.filter
        ((s.newPackage ⟨session, child.origin, none, none⟩).isOf c)).length
      session } rfl rfl
    exact hset.congr rfl rfl rfl rfl

theorem handle_keeps (h : KeepsAddress id o since s) (p : PackageId) (response : Option (Gdu ζ))
    (closed : Bool) : KeepsAddress id o since (handle s p response closed) where
  id_le := h.id_le
  own := h.own
  origin := h.origin
  packages q hq hlt hid := by
    by_cases hne : q = p
    · subst hne
      simp only [handle, Function.update_self] at hid ⊢
      exact h.packages q hq hlt hid
    · simp only [handle, Function.update_of_ne hne] at hid ⊢
      exact h.packages q hq hlt hid

theorem work_keeps (h : KeepsAddress id o since s) {w : Nat} {response : Option (Gdu ζ)}
    {closed : Bool} (hs : work s w response closed = some s') : KeepsAddress id o since s' := by
  obtain ⟨pool, -, heq⟩ := Option.map_eq_some_iff.mp hs
  split at heq
  · rename_i p hw
    cases heq
    exact (handle_keeps h p response closed).congr rfl rfl rfl rfl
  · cases heq
    exact h.congr rfl rfl rfl rfl
  · cases heq
    exact h.congr rfl rfl rfl rfl

theorem result_keeps (h : KeepsAddress id o since s) (p : PackageId) :
    KeepsAddress id o since (result s p) := by
  simp only [result]
  split
  · exact h.congr rfl rfl rfl rfl
  · rename_i child hc
    have hset := h.setChild hc { child with noRequests := child.noRequests - 1 } rfl rfl
    cases (s.packages p).answer.1 <;> dsimp only [Option.elim] <;> split <;>
      exact hset.congr rfl rfl rfl rfl

theorem keeps_step {a : Label ζ} (h : KeepsAddress id o since s)
    (hs : step matchGlob cfg rep s a = some s') : KeepsAddress id o since s' := by
  cases step_happens hs with
  | connect address => exact connect_keeps h address
  | recvGDU c child gdu conSz hc => exact recvGDU_keeps h hc gdu conSz
  | failNotify c child a hc => exact failNotify_keeps h hc
  | pool a pool hout hpending => exact h.congr rfl rfl rfl rfl
  | deliver a p rest pool hout hpool =>
    exact result_keeps (s := { s with pool }) (h.congr rfl rfl rfl rfl) p
  | work w response closed s' hwork => exact work_keeps h hwork

/-- A connection that has just been accepted. -/
theorem keeps_connect (hown : ∀ c child, s.children.lookup c = some child → child.session.id = c)
    (peer port : List Char) :
    KeepsAddress (s.globalId + 1) (connectionOrigin peer port (s.globalId + 1)) s.made
      (connect s (peer ++ ' ' :: port)) where
  id_le := Nat.le_refl _
  own c x hx := by
    rcases Table.lookup_insert_iff.mp hx with ⟨rfl, rfl⟩ | ⟨-, hx⟩
    · rfl
    · exact hown _ _ hx
  origin x hx := by
    rcases Table.lookup_insert_iff.mp hx with ⟨-, rfl⟩ | ⟨hne, -⟩
    · rfl
    · exact absurd rfl hne
  packages p hp hlt := absurd hlt (Nat.not_lt.mpr hp)

/-- `connect` never gives the id 0, so its address is kept from the start. -/
theorem own_of_reach (h : Reach (step matchGlob cfg rep) (init cfg) Any s) :
    ∀ c child, s.children.lookup c = some child → child.session.id = c := by
  have hkeeps : ∃ since, KeepsAddress 0 Origin.new since s := by
    refine h.invariant (I := fun s => ∃ since, KeepsAddress 0 Origin.new since s)
      (fun s hs => ?_) fun s a s' hi _ hs => ?_
    · have hnone : ∀ c, s.children.lookup c = none := fun c => hs.2.1 ▸ AList.lookup_empty c
      refine ⟨s.made, Nat.zero_le _, fun c child hc => ?_, fun child hc => ?_, fun p hp hlt => ?_⟩
      · rw [hnone c] at hc
        cases hc
      · rw [hnone 0] at hc
        cases hc
      · exact absurd hlt (Nat.not_lt.mpr hp)
    · obtain ⟨since, hi⟩ := hi
      exact ⟨since, keeps_step hi hs⟩
  obtain ⟨since, hkeeps⟩ := hkeeps
  exact hkeeps.own

/-- What is seen of the connection `id` from the peer: `http-req-max` and the filters have the peer,
whatever a request says. -/
structure PeerSeen (matchGlob : List Char → List Char → Bool) (rep : Rep) (peer port : List Char)
    (id : SessionId) (since : Nat) (s : St ζ) : Prop where
  request : ∀ child, s.children.lookup id = some child → ∀ gdu : Option (Gdu ζ),
    (requestOrigin child gdu).getAddress = peer ∧ (requestOrigin child gdu).getBindAddress = port
  limit : ∀ child, s.children.lookup id = some child → ∀ hreq conSz,
    answerAtOnce matchGlob rep child (some (.httpRequest hreq) : Option (Gdu ζ)) conSz =
      if rep.statReq ≠ [] ∧ hreq.path = rep.statReq then some (.httpResponse 200)
      else if refused matchGlob peer conSz rep.httpReqMax then some (.httpResponse 500)
      else none
  package : ∀ p, since ≤ p → p < s.made → (s.packages p).session.id = id →
    (s.packages p).origin.getAddress = peer ∧ (s.packages p).origin.getBindAddress = port
  forwarded : ∀ p, since ≤ p → p < s.made → (s.packages p).session.id = id → ∀ known,
    HttpClient.xForwardedFor true known (s.packages p).origin = some (pcomb known peer) ∧
      Z3950Client.userinfoClientIp true known (s.packages p).origin = some (pcomb known peer)

theorem KeepsAddress.peerSeen {peer port : List Char} (hpeer : peer ≠ []) (hblank : ' ' ∉ peer)
    (hport : ' ' ∉ port) (h : KeepsAddress id (connectionOrigin peer port id) since s) :
    PeerSeen matchGlob rep peer port id since s := by
  have hrequest : ∀ child, s.children.lookup id = some child → ∀ gdu : Option (Gdu ζ),
      (requestOrigin child gdu).getAddress = peer ∧
        (requestOrigin child gdu).getBindAddress = port := by
    intro child hc gdu
    have hfrom := requestOrigin_from child gdu
    rw [h.origin child hc] at hfrom
    exact hfrom.addresses hpeer hblank hport
  have hpackage : ∀ p, since ≤ p → p < s.made → (s.packages p).session.id = id →
      (s.packages p).origin.getAddress = peer ∧ (s.packages p).origin.getBindAddress = port :=
    fun p hp hlt hid => (h.packages p hp hlt hid).addresses hpeer hblank hport
  refine ⟨hrequest, fun child hc hreq conSz => ?_, hpackage, fun p hp hlt hid known => ?_⟩
  · rw [answerAtOnce, (hrequest child hc _).1]
  · rw [HttpClient.xForwardedFor, Z3950Client.userinfoClientIp, (hpackage p hp hlt hid).1]
    exact ⟨rfl, if_pos ⟨rfl, hpeer⟩⟩

/-- `X-Forwarded-For` does not hide the peer: with any header in front of it an address of a
connection gives the peer and the port, and from the accept of a connection on they are what is seen
of it in every state. -/
theorem peer_not_spoofed (matchGlob : List Char → List Char → Bool) (cfg : Config) (rep : Rep)
    {peer port : List Char} (hpeer : peer ≠ []) (hblank : ' ' ∉ peer) (hport : ' ' ∉ port) :
    (∀ (header : List Char) (id : SessionId),
      let o := (Origin.new.setTcpipAddress (peer ++ ' ' :: port) id).setTcpipAddress header id
      o.getAddress = peer ∧ o.getBindAddress = port) ∧
    ∀ s0 s1 s : St ζ, Reach (step matchGlob cfg rep) (init cfg) Any s0 →
      step matchGlob cfg rep s0 (.connect (peer ++ ' ' :: port)) = some s1 →
      Reach (step matchGlob cfg rep) (s1 = ·) Any s →
      s1.alive s1.globalId = true ∧
        PeerSeen matchGlob rep peer port s1.globalId s1.made s := by
  refine ⟨fun header id => ?_, fun s0 s1 s h0 hs h => ?_⟩
  · exact (FromConnection.forwarded header id).addresses hpeer hblank hport
  · simp only [step] at hs
    split at hs
    · cases hs
      refine ⟨congrArg Option.isSome (AList.lookup_insert _), ?_⟩
      refine KeepsAddress.peerSeen hpeer hblank hport ?_
      refine Reach.invariant (fun s hs => ?_) (fun s a s' hi _ hs => keeps_step hi hs) h
      subst hs
      exact keeps_connect (own_of_reach h0) peer port
    · cases hs

/-! ### A header that looks like an address -/

def spoofed : Option (Gdu Empty) := some (.httpRequest ⟨['/'], some ['q', ' ', '@']⟩)

/-- A connection from `p` whose first request says it comes from `q`. -/
theorem peer_not_spoofed_header :
    ∃ s : St Empty, s.made = 1 ∧
      (s.packages 0).origin.address = ['q', ' ', '@', ' ', 'p', ' ', '@'] ∧
      PeerSeen (fun _ _ => false) ⟨[], []⟩ ['p'] ['@'] 1 0 s := by
  let accepted : St Empty := connect (.start ⟨1, 1⟩) (['p'] ++ ' ' :: ['@'])
  have hrun : (run (step (fun _ _ => false) ⟨1, 1⟩ ⟨[], []⟩) accepted [.recvGDU 1 spoofed 0]).any
      (fun s => s.made = 1 ∧
        (s.packages 0).origin.address = ['q', ' ', '@', ' ', 'p', ' ', '@']) := by
    decide
  obtain ⟨s, hr, hs⟩ := Reach.exists_of_run (rfl : accepted = accepted) (runOk_any _ _) hrun
  have hs := of_decide_eq_true hs
  exact ⟨s, hs.1, hs.2, ((peer_not_spoofed (fun _ _ => false) ⟨1, 1⟩ ⟨[], []⟩ (by decide)
    (by decide) (by decide)).2 _ accepted s (.start (init_start ⟨1, 1⟩)) rfl hr).2⟩

end FrontendNet
end Metaproxy
