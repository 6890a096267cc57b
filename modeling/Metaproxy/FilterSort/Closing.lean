import Metaproxy.FilterSort.Frontend
import Metaproxy.PresentChunk
import Metaproxy.VirtualDB.Frontend

/-!
# FilterSort.Closing

When the filters behind close the session of a package that `virt_db`, `present_chunk` or `sort` has
made for a request of the client, the session of the client has to be closed, too. The first two do
so (`searchOn_carries`, `chunkLoop_carries`); `sort` closes the session of its own package instead,
so the client's stays open (`process_carries_iff`).
-/

namespace Metaproxy

open Lib Z3950

/-! ## `virt_db` -/

namespace VirtualDB

/-- A search or present request on behalf of the client. -/
def Sent.isOwn : Sent → Bool
  | .search .. => true
  | .present .. => true
  | _ => false

/-- The client's own request is sent on. -/
def Forwards (rep : Rep) (s : St) (a : Label) : Prop :=
  (s.log.filter Sent.isOwn).length < ((process rep s a).1.log.filter Sent.isOwn).length

/-- Its package comes back with the session closed. -/
def Label.closed : Label → Bool
  | .search _ _ sa => sa.closed
  | .present _ closed => closed
  | _ => false

variable {rep : Rep} {s : St}

theorem searchOn_carries {b : Backend} {req : SearchRequest} {sa : SearchAnswer}
    (h : sa.closed = true) : (searchOn rep s b req sa).1.isClosed = true := by
  simp only [searchOn, h, if_true]

/-- Making a backend sends no search or present request. -/
theorem initBackend_own (rep : Rep) (s : St) (databases : List String) (ia : InitAnswer) :
    (initBackend rep s databases ia).1.log.filter Sent.isOwn = s.log.filter Sent.isOwn := by
  unfold initBackend
  simp only
  split
  · rfl
  · split
    · rfl
    · split <;> rfl

theorem search_carries {req : SearchRequest} {ia : InitAnswer} {sa : SearchAnswer}
    (hforwards : Forwards rep s (.search req ia sa)) (h : sa.closed = true) :
    (search rep s req ia sa).1.isClosed = true := by
  have hlt : (s.log.filter Sent.isOwn).length <
      ((search rep s req ia sa).1.log.filter Sent.isOwn).length := hforwards
  unfold search at hlt ⊢
  simp only at hlt ⊢
  split
  · rename_i hrefuse
    rw [if_pos hrefuse] at hlt
    exact absurd hlt (Nat.lt_irrefl _)
  · rename_i hrefuse
    rw [if_neg hrefuse] at hlt
    split
    · exact searchOn_carries h
    · rename_i hnone
      rw [hnone] at hlt
      have hown := initBackend_own rep s req.databaseNames ia
      cases hinit : initBackend rep s req.databaseNames ia with
      | mk s' result =>
        cases result with
        | error e =>
          rw [hinit] at hown hlt
          simp only [hown] at hlt
          exact absurd hlt (Nat.lt_irrefl _)
        | ok b => exact searchOn_carries h

theorem present_carries {resultSetId : String} (hforwards : Forwards rep s (.present resultSetId true)) :
    (present s resultSetId true).1.isClosed = true := by
  have hlt : (s.log.filter Sent.isOwn).length <
      ((present s resultSetId true).1.log.filter Sent.isOwn).length := hforwards
  unfold present at hlt ⊢
  split
  · rename_i hnone
    rw [hnone] at hlt
    exact absurd hlt (Nat.lt_irrefl _)
  · rfl

theorem process_carries {a : Label} (hforwards : Forwards rep s a) (h : a.closed = true) :
    (process rep s a).1.isClosed = true := by
  cases a with
  | search req ia sa => exact search_carries hforwards h
  | present resultSetId closed =>
    cases h
    exact present_carries hforwards
  | _ => cases h

end VirtualDB

/-! ## `present_chunk` -/

namespace PresentChunk

variable {ρ : Type*}

/-- The loop ends with the first chunk whose session is closed. -/
theorem chunkLoop_carries {chunkNumber : Int} {closed : Bool} {pr : PresentRequest}
    {answers : List (Answer ρ)} {offset : Int} {npl : Npl ρ} {c : Chunks ρ}
    (h : chunkLoop chunkNumber closed pr answers offset npl = some c) (hc : true ∈ c.closed) :
    c.result = .closed := by
  induction answers generalizing offset npl c with
  | nil =>
    rw [chunkLoop] at h
    split at h
    · cases h
    · cases h
      cases hc
  | cons a answers ih =>
    rw [chunkLoop] at h
    split at h
    · split at h
      · cases h
        rfl
      · split at h
        · split at h
          · obtain ⟨c', hc', rfl⟩ := Option.map_eq_some_iff.mp h
            rcases List.mem_cons.mp hc with hfalse | hc
            · cases hfalse
            · show c'.result = .closed
              exact ih hc' hc
          · cases h
            simp at hc
        · cases h
          simp at hc
    · cases h
      cases hc

theorem process_carries {chunkNumber : Int} {closed : Bool} {req : Request}
    {answers : List (Answer ρ)} {p : Processed ρ} {c : Chunks ρ}
    (h : process chunkNumber closed req answers = some p) (hc : p.chunks = some c)
    (hclosed : true ∈ c.closed) : p.closed = true := by
  unfold process at h
  split at h
  · split at h
    · obtain ⟨c', hc', rfl⟩ := Option.map_eq_some_iff.mp h
      have heq : c' = c := by
        split at hc <;> exact Option.some.inj hc
      subst heq
      rw [chunkLoop_carries hc' hclosed]
    · obtain ⟨a, -, rfl⟩ := Option.map_eq_some_iff.mp h
      cases hc
  · obtain ⟨a, -, rfl⟩ := Option.map_eq_some_iff.mp h
    cases hc

end PresentChunk

/-! ## `sort` -/

namespace FilterSort

variable {ρ : Type*} {impl : Impl ρ} {f : Frontend ρ} {closed : Bool} {answers : List (Answer ρ)}
  {r : Result ρ}

/-- The request is sent on in a package of its own. -/
def Forwards (f : Frontend ρ) : Request → Prop
  | .search req => f.sets.lookup req.resultSetName = none ∨ req.replaceIndicator = true
  | .present req => ∃ rset, f.sets.lookup req.resultSetId = some rset ∧ localList rset req = none
  | _ => False

/-- The session of the client is as it was, and what came of the package of the request is told by
its answer. -/
structure Kept (closed : Bool) (forwards : Prop) (answers : List (Answer ρ)) (r : Result ρ) :
    Prop where
  same : r.closed = closed
  forwarded : r.forwarded = some true ↔
    forwards ∧ ∃ b ∈ answers.head?, (closed || b.closed) = true

theorem handleSearch_kept {req : SearchRequest} {hitCount : Int}
    (h : handleSearch impl f closed req hitCount answers = some r) :
    Kept closed (Forwards f (.search req)) answers r := by
  have hforwards : Forwards f (.search req) ↔
      ¬ ((f.sets.lookup req.resultSetName).isSome && !req.replaceIndicator) = true := by
    cases hl : f.sets.lookup req.resultSetName <;> cases hr : req.replaceIndicator <;>
      simp [Forwards, hl, hr]
  cases answers with
  | nil =>
    rw [handleSearch] at h
    split at h
    · cases h
      exact ⟨rfl, by simp⟩
    · cases h
  | cons b answers =>
    rw [handleSearch] at h
    split at h
    · rename_i hrefuse
      cases h
      have hno : ¬ Forwards f (.search req) := fun hf => hforwards.mp hf hrefuse
      refine ⟨rfl, ?_⟩
      simp [hno]
    · rename_i hrefuse
      have hyes := hforwards.mpr hrefuse
      simp only at h
      split at h
      · obtain ⟨handled, -, rfl⟩ := Option.map_eq_some_iff.mp h
        refine ⟨rfl, ?_⟩
        simp [hyes]
      · cases h
        refine ⟨rfl, ?_⟩
        simp [hyes]

theorem handlePresent_kept {req : PresentRequest}
    (h : handlePresent impl f closed req answers = some r) :
    Kept closed (Forwards f (.present req)) answers r := by
  unfold handlePresent at h
  split at h
  · rename_i hnone
    cases h
    refine ⟨rfl, ?_⟩
    simp [Forwards, hnone]
  · rename_i rset hset
    split at h
    · rename_i l hl
      cases h
      refine ⟨rfl, ?_⟩
      simp [Forwards, hset, hl]
    · rename_i hl
      cases answers with
      | nil => cases h
      | cons b answers =>
        rw [forwardPresent] at h
        simp only at h
        split at h
        · obtain ⟨handled, -, rfl⟩ := Option.map_eq_some_iff.mp h
          refine ⟨rfl, ?_⟩
          simp [Forwards, hset, hl]
        · cases h
          refine ⟨rfl, ?_⟩
          simp [Forwards, hset, hl]

theorem moved_carries {f : Frontend ρ} (h : moved f closed answers = some r) :
    r.forwarded = none := by
  obtain ⟨a, -, rfl⟩ := Option.map_eq_some_iff.mp h
  rfl

theorem Kept.carries_iff {forwards : Prop} (h : Kept closed forwards answers r) :
    (r.forwarded = some true → r.closed = true) ↔
      ¬ (forwards ∧ closed = false ∧ ∃ b ∈ answers.head?, b.closed = true) := by
  rw [h.forwarded, h.same]
  cases closed <;> simp

/-- The session of the client is left open exactly when it was open and the package of its request
comes back with the session closed. -/
theorem process_carries_iff {req : Request} {hitCount : Int}
    (h : process impl f closed req hitCount answers = some r) :
    (r.forwarded = some true → r.closed = true) ↔
      ¬ (f.isVirtual = true ∧ Forwards f req ∧ closed = false ∧
        ∃ b ∈ answers.head?, b.closed = true) := by
  unfold process at h
  cases hvirtual : f.isVirtual with
  | true =>
    rw [hvirtual, if_pos rfl] at h
    simp only [true_and]
    cases req with
    | search req => exact (handleSearch_kept h).carries_iff
    | present req => exact (handlePresent_kept h).carries_iff
    | init encoding => simp [moved_carries h, Forwards]
    | other encoding => simp [moved_carries h, Forwards]
  | false =>
    rw [hvirtual, if_neg (by simp)] at h
    have hnone : r.forwarded = none := by
      split at h <;> exact moved_carries h
    simp [hnone]

/-- `virt_db` and `present_chunk` always carry the closing of a session back to the client; `sort`
does so unless it sends the request on, and only then. -/
theorem closing_reaches_client_iff {ρ : Type*} :
    (∀ (rep : VirtualDB.Rep) (s : VirtualDB.St) (a : VirtualDB.Label),
      VirtualDB.Forwards rep s a → a.closed = true →
      (VirtualDB.process rep s a).1.isClosed = true) ∧
    (∀ (chunkNumber : Int) (closed : Bool) (req : PresentChunk.Request)
      (answers : List (Answer ρ)) (p : PresentChunk.Processed ρ) (c : PresentChunk.Chunks ρ),
      PresentChunk.process chunkNumber closed req answers = some p → p.chunks = some c →
      true ∈ c.closed → p.closed = true) ∧
    (∀ (impl : Impl ρ) (f : Frontend ρ) (closed : Bool) (req : Request) (hitCount : Int)
      (answers : List (Answer ρ)) (r : Result ρ),
      process impl f closed req hitCount answers = some r →
      ((r.forwarded = some true → r.closed = true) ↔
        ¬ (f.isVirtual = true ∧ Forwards f req ∧ closed = false ∧
          ∃ b ∈ answers.head?, b.closed = true))) :=
  ⟨fun _ _ _ => VirtualDB.process_carries, fun _ _ _ _ _ _ => PresentChunk.process_carries,
    fun _ _ _ _ _ _ _ => process_carries_iff⟩

/-- A search response without records. -/
def noHits : SearchResponse Nat := ⟨0, 0, 1, true, none⟩

/-- The backend answers a search and closes: the package of the search comes back closed, and the
session of the client is open. -/
theorem closing_lost :
    (process ⟨20, true, fun _ => []⟩ (⟨true, ∅⟩ : Frontend Nat) false
        (.search ⟨"default", true, none, 0, 1, 0, none, none, []⟩) 0
        [⟨true, some (.search noHits)⟩]).map (fun r => (r.forwarded, r.closed)) =
      some (some true, false) := rfl

end FilterSort
end Metaproxy
