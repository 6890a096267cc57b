import Metaproxy.Lib.Cut

/-!
# Origin

`origin.cpp`: where a package comes from. The address is a list of components with blanks between
them: what a client says it was forwarded for, the peer of the connection, and the listening
address. Whatever is put in front, the last two components stay the peer and the listening address
(`getAddress_append`, `getBindAddress_append`).
-/

namespace Metaproxy

structure Origin where
  address : List Char
  originId : Nat
deriving DecidableEq, Repr

namespace Origin

def new : Origin := ⟨[], 0⟩

/-- The first call gives the peer and the listening address, later ones go in front. -/
def setTcpipAddress (o : Origin) (addr : List Char) (id : Nat) : Origin where
  address := if o.address = [] then addr else addr ++ ' ' :: o.address
  originId := id

/-- What is before and after the last blank, `rfind(' ')`. -/
def cutLast : List Char → Option (List Char × List Char)
  | [] => none
  | c :: cs =>
    match cutLast cs with
    | some (before, after) => some (c :: before, after)
    | none => if c = ' ' then some ([], cs) else none

/-- The component before the last. -/
def getAddress (o : Origin) : List Char :=
  match cutLast o.address with
  | some ([], _) => o.address
  | some (before, _) =>
    match cutLast before with
    | some (_, address) => address
    | none => before
  | none => o.address

/-- The last component. -/
def getBindAddress (o : Origin) : List Char :=
  match cutLast o.address with
  | some ([], _) => o.address
  | some (_, bindAddress) => bindAddress
  | none => o.address

theorem cutLast_eq (l : List Char) : cutLast l = Lib.cutLast ' ' l := by
  induction l with
  | nil => rfl
  | cons c l ih =>
    rw [cutLast, Lib.cutLast, ih]
    cases Lib.cutLast ' ' l <;> rfl

section

variable {o : Origin} {before peer port : List Char}

theorem cutLast_none (hblank : ' ' ∉ peer) : cutLast peer = none := by
  rw [cutLast_eq, Lib.cutLast_eq_none hblank]

theorem cutLast_append (hport : ' ' ∉ port) :
    cutLast (before ++ ' ' :: port) = some (before, port) := by
  rw [cutLast_eq, Lib.cutLast_append hport]

/-- Two components and nothing in front of them. -/
theorem getAddress_pair (hpeer : peer ≠ []) (hblank : ' ' ∉ peer) (hport : ' ' ∉ port)
    (h : o.address = peer ++ ' ' :: port) : o.getAddress = peer := by
  have hlast : cutLast o.address = some (peer, port) := h ▸ cutLast_append hport
  have hnone := cutLast_none hblank
  cases peer with
  | nil => exact absurd rfl hpeer
  | cons c peer => simp only [getAddress, hlast, hnone]

theorem getBindAddress_pair (hpeer : peer ≠ []) (hport : ' ' ∉ port)
    (h : o.address = peer ++ ' ' :: port) : o.getBindAddress = port := by
  have hlast : cutLast o.address = some (peer, port) := h ▸ cutLast_append hport
  cases peer with
  | nil => exact absurd rfl hpeer
  | cons c peer => simp only [getBindAddress, hlast]

theorem append_blank_assoc :
    before ++ ' ' :: (peer ++ ' ' :: port) = (before ++ ' ' :: peer) ++ ' ' :: port := by
  rw [List.append_assoc, List.cons_append]

theorem append_blank_ne_nil : before ++ ' ' :: peer ≠ [] :=
  List.append_ne_nil_of_right_ne_nil _ (List.cons_ne_nil _ _)

/-- The last two components, whatever is before them. -/
theorem getAddress_append (hblank : ' ' ∉ peer) (hport : ' ' ∉ port)
    (h : o.address = before ++ ' ' :: (peer ++ ' ' :: port)) : o.getAddress = peer := by
  have hlast : cutLast o.address = some (before ++ ' ' :: peer, port) := by
    rw [h, append_blank_assoc, cutLast_append hport]
  have hsecond : cutLast (before ++ ' ' :: peer) = some (before, peer) := cutLast_append hblank
  cases hcut : before ++ ' ' :: peer with
  | nil => exact absurd hcut append_blank_ne_nil
  | cons c cs =>
    rw [hcut] at hlast hsecond
    simp only [getAddress, hlast, hsecond]

theorem getBindAddress_append (hport : ' ' ∉ port)
    (h : o.address = before ++ ' ' :: (peer ++ ' ' :: port)) : o.getBindAddress = port :=
  getBindAddress_pair append_blank_ne_nil hport (h.trans append_blank_assoc)

end

end Origin

end Metaproxy
