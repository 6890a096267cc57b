import Mathlib.Algebra.Order.Ring.Int
import Mathlib.Data.List.TakeWhile

/-!
# Lib.Cursor

A text read through positions in it. It ends with a terminator, which may be read and which nothing
may be read behind. Offsets are of type `int`, so a sum of two of them may overflow.

* `At.scan`, `At.look` — the loops that read until a predicate fails, or as long as given characters
  follow, read nothing behind the terminator.
* `InOrder.inside`, `InOrder.pairwise` — spans that start one behind the other, between two
  positions.
-/

namespace Lib

inductive Fault where
  | outOfBounds
  | overflow
deriving DecidableEq, Repr

/-- A text without the terminator `nul` in it. -/
structure Terminated {α : Type} (nul : α) where
  chars : List α
  nul_notMem : nul ∉ chars

/-- `i + k`. -/
def offset (i k : Nat) : Except Fault Nat :=
  if i + k < 2 ^ 31 then .ok (i + k) else .error .overflow

theorem offset_of_lt {i k : Nat} (h : i + k < 2 ^ 31) : offset i k = .ok (i + k) := if_pos h

@[simp] theorem ok_bind {α β : Type} (a : α) (f : α → Except Fault β) : (Except.ok a >>= f) = f a :=
  rfl

/-- A pointer, if it is not null, and a length. -/
structure Span where
  ptr : Option Nat
  len : Int
deriving DecidableEq, Repr

namespace Terminated

variable {α : Type} {nul : α}

/-- What is done with the character at `p`, if that may be read. -/
def reading {β : Type} (s : Terminated nul) (p : Nat)
    (f : α → p ≤ s.chars.length → Except Fault β) : Except Fault β :=
  if h : p ≤ s.chars.length then f ((s.chars.drop p).headD nul) h else .error .outOfBounds

def read (s : Terminated nul) (p : Nat) : Except Fault α := s.reading p fun c _ => .ok c

/-- `while (cp[i] && pred(cp[i])) i++;` -/
def scan [DecidableEq α] (s : Terminated nul) (pred : α → Bool) (cp i : Nat) : Except Fault Nat :=
  s.reading (cp + i) fun c _ =>
    if c ≠ nul ∧ pred c then
      if i + 1 < 2 ^ 31 then scan s pred cp (i + 1) else .error .overflow
    else .ok i
termination_by s.chars.length + 1 - (cp + i)

/-- `f(cp[0]) == t[0] && f(cp[1]) == t[1] && …` -/
def look {β : Type} [DecidableEq β] (s : Terminated nul) (f : α → β) (cp : Nat) :
    List β → Except Fault Bool
  | [] => .ok true
  | c :: t => do
    let d ← s.read cp
    if f d = c then look s f (cp + 1) t else return false

/-- The characters of a span. -/
def slice (s : Terminated nul) (sp : Span) : List α :=
  (s.chars.drop (sp.ptr.getD 0)).take sp.len.toNat

/-! ## What stands at a position -/

/-- `l` is what stands from `p` on. -/
def At (s : Terminated nul) (p : Nat) (l : List α) : Prop :=
  p ≤ s.chars.length ∧ s.chars.drop p = l

theorem at_zero (s : Terminated nul) : s.At 0 s.chars := ⟨Nat.zero_le _, rfl⟩

variable {s : Terminated nul} {p cp i : Nat} {c : α} {l l' : List α}

theorem At.length (h : s.At p l) : p + l.length = s.chars.length := by
  obtain ⟨hp, rfl⟩ := h
  rw [List.length_drop]
  omega

theorem At.append (h : s.At p (l ++ l')) : s.At (p + l.length) l' := by
  have hlen := h.length
  rw [List.length_append] at hlen
  refine ⟨by omega, ?_⟩
  rw [← List.drop_drop, h.2, List.drop_left]

theorem At.tail (h : s.At p (c :: l)) : s.At (p + 1) l :=
  At.append (show s.At p ([c] ++ l) from h)

theorem At.reading {β : Type} (h : s.At p l) (f : α → p ≤ s.chars.length → Except Fault β) :
    s.reading p f = f (l.headD nul) h.1 := by
  rw [Terminated.reading, dif_pos h.1]
  simp only [h.2]

theorem At.read (h : s.At p l) : s.read p = .ok (l.headD nul) := h.reading _

theorem At.notMem (h : s.At p l) : nul ∉ l := by
  rw [← h.2]
  exact fun hmem => s.nul_notMem (List.mem_of_mem_drop hmem)

theorem At.ne (h : s.At p (c :: l)) : c ≠ nul := by
  rintro rfl
  exact h.notMem List.mem_cons_self

theorem At.split (h : s.At p l) (pred : α → Bool) :
    s.At p (l.takeWhile pred ++ l.dropWhile pred) := by
  rwa [List.takeWhile_append_dropWhile]

theorem At.dropWhile (h : s.At p l) (pred : α → Bool) :
    s.At (p + (l.takeWhile pred).length) (l.dropWhile pred) :=
  (h.split pred).append

theorem At.slice (h : s.At p (l ++ l')) : s.slice ⟨some p, l.length⟩ = l := by
  show (s.chars.drop p).take ((l.length : Int).toNat) = l
  rw [Int.toNat_natCast, h.2, List.take_left]

theorem At.headD_eq_iff (h : s.At p l) (hc : c ≠ nul) : l.headD nul = c ↔ l.head? = some c := by
  cases l with
  | nil => exact ⟨fun heq => absurd heq.symm hc, fun heq => by cases heq⟩
  | cons d l => exact Option.some_inj.symm

theorem At.offset (hs : s.chars.length < 2 ^ 31) {k : Nat} (h : s.At (cp + (i + k)) l) :
    offset i k = .ok (i + k) :=
  offset_of_lt (by have := h.1; omega)

theorem At.scan [DecidableEq α] (hs : s.chars.length < 2 ^ 31) {pred : α → Bool}
    (h : s.At (cp + i) l) : s.scan pred cp i = .ok (i + (l.takeWhile pred).length) := by
  induction l generalizing i with
  | nil =>
    rw [Terminated.scan, h.reading]
    exact if_neg fun hnul => hnul.1 rfl
  | cons c l ih =>
    have hlen := h.length
    rw [List.length_cons] at hlen
    rw [Terminated.scan, h.reading, List.headD_cons]
    cases hp : pred c with
    | true =>
      rw [if_pos ⟨h.ne, rfl⟩, if_pos (by omega), ih (by simpa only [Nat.add_assoc] using h.tail),
        List.takeWhile_cons_of_pos hp, List.length_cons]
      congr 1
      omega
    | false =>
      rw [List.takeWhile_cons_of_neg (Bool.eq_false_iff.mp hp)]
      exact if_neg fun hboth => Bool.noConfusion hboth.2

theorem At.scan_zero [DecidableEq α] (hs : s.chars.length < 2 ^ 31) {pred : α → Bool}
    (h : s.At cp l) : s.scan pred cp 0 = .ok (l.takeWhile pred).length := by
  rw [At.scan hs (show s.At (cp + 0) l from h), Nat.zero_add]

theorem At.look {β : Type} [DecidableEq β] {f : α → β} {t : List β} (hf : f nul ∉ t)
    (h : s.At p l) : s.look f p t = .ok (decide ((l.take t.length).map f = t)) := by
  induction t generalizing p l with
  | nil => rw [Terminated.look, List.length_nil, List.take_zero, List.map_nil, decide_eq_true rfl]
  | cons d t ih =>
    rw [List.mem_cons, not_or] at hf
    rw [Terminated.look, h.read]
    cases l with
    | nil =>
      show (if f nul = d then _ else _) = _
      rw [if_neg hf.1, List.take_nil, List.map_nil, decide_eq_false (List.cons_ne_nil d t).symm]
      rfl
    | cons c l =>
      show (if f c = d then _ else _) = _
      by_cases hc : f c = d
      · rw [if_pos hc, ih hf.2 h.tail, List.length_cons, List.take_succ_cons, List.map_cons, hc]
        simp only [List.cons.injEq, true_and]
      · rw [if_neg hc, decide_eq_false]
        · rfl
        · rw [List.length_cons, List.take_succ_cons, List.map_cons, List.cons.injEq]
          exact fun hboth => hc hboth.1

end Terminated

/-! ## Spans -/

/-- In a text of length `n`. -/
def Span.Inside (n : Nat) (sp : Span) : Prop := ∃ p ∈ sp.ptr, 0 ≤ sp.len ∧ p + sp.len ≤ n

/-- The first one ends where the second one starts, or before. -/
def Span.Before (sp sp' : Span) : Prop := ∃ p ∈ sp.ptr, ∃ p' ∈ sp'.ptr, p + sp.len ≤ p'

/-- Spans one behind the other between `lo` and `hi`. -/
inductive InOrder : Nat → List Span → Nat → Prop
  | nil {lo hi : Nat} : lo ≤ hi → InOrder lo [] hi
  | cons {lo p n hi : Nat} {sps : List Span} :
    lo ≤ p → InOrder (p + n) sps hi → InOrder lo (⟨some p, n⟩ :: sps) hi

namespace InOrder

variable {lo mid hi hi' n p : Nat} {sps sps' : List Span} {sp : Span}

theorem le (h : InOrder lo sps hi) : lo ≤ hi := by
  induction h with
  | nil h => exact h
  | cons hp _ ih => omega

theorem append (h : InOrder lo sps mid) (h' : InOrder mid sps' hi) :
    InOrder lo (sps ++ sps') hi := by
  induction h with
  | nil hle =>
    cases h' with
    | nil hle' => exact .nil (Nat.le_trans hle hle')
    | cons hp h' => exact .cons (Nat.le_trans hle hp) h'
  | cons hp _ ih => exact .cons hp (ih h')

theorem mono (h : InOrder lo sps mid) (hhi : mid ≤ hi) : InOrder lo sps hi := by
  rw [← List.append_nil sps]
  exact h.append (.nil hhi)

theorem single (h : lo ≤ p) (h' : p + n ≤ hi) : InOrder lo [⟨some p, n⟩] hi := .cons h (.nil h')

theorem mem (h : InOrder lo sps hi) (hsp : sp ∈ sps) :
    ∃ p ∈ sp.ptr, lo ≤ p ∧ 0 ≤ sp.len ∧ p + sp.len ≤ hi := by
  induction h with
  | nil _ => cases hsp
  | @cons lo p n hi sps hp h ih =>
    rcases List.mem_cons.mp hsp with rfl | hsp
    · refine ⟨p, rfl, hp, Int.natCast_nonneg n, ?_⟩
      have := h.le
      show (p : Int) + (n : Int) ≤ hi
      omega
    · obtain ⟨q, hq, hle, hrest⟩ := ih hsp
      exact ⟨q, hq, by omega, hrest⟩

theorem inside (h : InOrder lo sps hi) (hsp : sp ∈ sps) : sp.Inside hi := by
  obtain ⟨p, hp, -, hrest⟩ := h.mem hsp
  exact ⟨p, hp, hrest⟩

theorem pairwise (h : InOrder lo sps hi) : sps.Pairwise Span.Before := by
  induction h with
  | nil _ => exact .nil
  | @cons lo p n hi sps hp h ih =>
    refine .cons (fun sp hsp => ?_) ih
    obtain ⟨q, hq, hle, -⟩ := h.mem hsp
    refine ⟨p, rfl, q, hq, ?_⟩
    show (p : Int) + (n : Int) ≤ q
    omega

end InOrder

end Lib
