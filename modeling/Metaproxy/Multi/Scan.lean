import Mathlib.Data.List.Lex
import Mathlib.Order.Fin.Basic
import Metaproxy.Util

/-!
# Multi.Scan

`Frontend::scan` of `filter_multi.cpp`. Every backend is sent the request with its own databases;
the entries below the start term and those from it on are merged in two lists, which then fill the
entries of the response.

`none` stands for what the C++ leaves undefined: reading an absent preferred position, and writing
or reading outside the entries that were allocated or set.
-/

namespace Metaproxy
namespace Multi

/-- Octets, compared as `std::string` does. -/
def Term : Type := List (Fin 256)

instance : LinearOrder Term := inferInstanceAs (LinearOrder (List (Fin 256)))

structure ScanRequest where
  databaseNames : List String
  /-- The term of `termListAndStartPoint`. -/
  term : Term
  numberOfTermsRequested : Int
  preferredPositionInResponse : Option Int

structure TermInfo where
  /-- `none` when it is not a general term. -/
  term : Option Term
  globalOccurrences : Option Int

inductive Entry where
  | termInfo (t : TermInfo)
  | surrogateDiagnostic (encoding : List UInt8)

structure ListEntries where
  entries : Option (List Entry)
  nonsurrogateDiagnostics : Option (List (List UInt8))

inductive ScanStatus where
  | success
  | failure
  | other (code : Int)
deriving DecidableEq, Repr

structure ScanResponse where
  scanStatus : ScanStatus
  numberOfEntriesReturned : Int
  positionOfTerm : Option Int
  entries : Option ListEntries

inductive Response where
  | scan (res : ScanResponse)
  | other (encoding : List UInt8)
  | none

/-- The package of a backend after `multi_move`. -/
structure BackendResult where
  closed : Bool
  response : Response

/-- The request that a backend is sent. -/
def ScanRequest.forBackend (hostArgs : String → Option String) (req : ScanRequest)
    (vhost : String) : ScanRequest :=
  { req with
    databaseNames := (Util.databasesFromZurl hostArgs vhost).getD req.databaseNames }

structure ScanTermInfo where
  normTerm : Term
  count : Int

def ScanTermInfo.ofTermInfo (t : TermInfo) : ScanTermInfo where
  normTerm := t.term.getD []
  count := t.globalOccurrences.getD 0

def ScanTermInfo.getEntry (t : ScanTermInfo) : Entry :=
  .termInfo ⟨some t.normTerm, some t.count⟩

/-- Counts `my` in, at its place in the order `lt`. -/
def insertTerm (lt : Term → Term → Prop) [DecidableRel lt] (my : ScanTermInfo) :
    List ScanTermInfo → List ScanTermInfo
  | [] => [my]
  | it :: rest =>
    if lt it.normTerm my.normTerm then it :: insertTerm lt my rest
    else if my.normTerm = it.normTerm then { it with count := it.count + my.count } :: rest
    else my :: it :: rest

/-- The body of both loops over the entries of a response. -/
def insertEntry (lt : Term → Term → Prop) [DecidableRel lt] (l : List ScanTermInfo) :
    Entry → List ScanTermInfo
  | .termInfo t =>
    let my := ScanTermInfo.ofTermInfo t
    if my.normTerm.length ≠ 0 then insertTerm lt my l else l
  | .surrogateDiagnostic _ => l

/-- Terms before the start term, greatest first. -/
def insertBefore (l : List ScanTermInfo) (entries : List Entry) : List ScanTermInfo :=
  entries.foldl (insertEntry (· > ·)) l

def insertAfter (l : List ScanTermInfo) (entries : List Entry) : List ScanTermInfo :=
  entries.foldl (insertEntry (· < ·)) l

structure Gathered where
  closed : Bool
  before : List ScanTermInfo
  after : List ScanTermInfo

/-- The loop over the backends; the error is a response that is returned at once. -/
def gather (req : ScanRequest) : List BackendResult → Gathered → Except (Bool × Response) Gathered
  | [], g => .ok g
  | b :: backends, g =>
    let closed := g.closed || b.closed
    match b.response with
    | .scan res =>
      match res.entries.bind ListEntries.nonsurrogateDiagnostics with
      | some diagnostics =>
        .error (closed, .scan ⟨.failure, 0, Option.none, some ⟨Option.none, some diagnostics⟩⟩)
      | Option.none =>
        match res.entries.bind ListEntries.entries with
        | some entries =>
          let position := res.positionOfTerm.getD (req.preferredPositionInResponse.getD 1)
          let i := (position - 1).toNat
          gather req backends
            ⟨closed, insertBefore g.before (entries.take i), insertAfter g.after (entries.drop i)⟩
        | Option.none => gather req backends { g with closed }
    | response => .error (closed, response)

/-- `entries[i] = e`. -/
def store (entries : List (Option Entry)) (i : Int) (e : Entry) : Option (List (Option Entry)) :=
  if 0 ≤ i ∧ i < entries.length then some (entries.set i.toNat (some e)) else none

def fillBefore (position : Int) :
    List ScanTermInfo → Int → List (Option Entry) → Option (List (Option Entry))
  | [], _, entries => some entries
  | it :: rest, i, entries =>
    if i < position - 1 then
      (store entries (position - 2 - i) it.getEntry).bind (fillBefore position rest (i + 1))
    else some entries

def fillAfter (number : Int) :
    List ScanTermInfo → Int → List (Option Entry) → Option (Int × List (Option Entry))
  | [], i, entries => some (i, entries)
  | it :: rest, i, entries =>
    if i < number then
      (store entries i it.getEntry).bind (fillAfter number rest (i + 1))
    else some (i, entries)

/-- The response from the two lists. -/
def scanResponse (req : ScanRequest) (before after : List ScanTermInfo) : Option ScanResponse :=
  req.preferredPositionInResponse.bind fun preferred =>
    let number := req.numberOfTermsRequested
    let entries := List.replicate number.toNat none
    let lbefore : Int := before.length
    let position := if lbefore < preferred - 1 then lbefore + 1 else preferred
    (fillBefore position before 0 entries).bind fun entries =>
      (fillAfter number after (if position ≤ 0 then 0 else position - 1) entries).bind fun filled =>
        ((filled.2.take filled.1.toNat).mapM id).map fun entries =>
          ⟨.success, filled.1, some position, some ⟨some entries, none⟩⟩

/-- What the client gets, and whether its session is closed. -/
def scan (req : ScanRequest) (backends : List BackendResult) : Option (Bool × Response) :=
  match gather req backends ⟨false, [], []⟩ with
  | .error r => some r
  | .ok g => (scanResponse req g.before g.after).map fun res => (g.closed, .scan res)

end Multi
end Metaproxy
