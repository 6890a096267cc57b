import Metaproxy.Lib.Program

/-!
# Lib.Stage

Stages in a row. A stage gets a value, makes calls and returns a value; a call goes on to what
follows, or to the row with a name.

* `seq` — associative, with `pass` in front of it a stage is itself; `chain` is the product.
* `answer` — calls to names are answered by the rows that have them, and what goes on behind the last
  stage comes back as it is. Rows that call each other in circles may have no answer
  (`answer_isSome`).
-/

namespace Lib

/-- The calls are values with the name of a row, or none. -/
abbrev Stage (κ β : Type*) := β → Program (Option κ × β) β β

namespace Stage

variable {κ β : Type*}

/-- It only goes on. -/
def pass : Stage κ β := fun b => .ask (none, b)

/-- What the first stage is answered when it goes on is what the second one returns. -/
def goOn (t : Stage κ β) : Option κ × β → Program (Option κ × β) β β
  | (none, b) => t b
  | (some k, b) => .ask (some k, b)

def seq (s t : Stage κ β) : Stage κ β := fun b => (s b).through t.goOn

def chain : List (Stage κ β) → Stage κ β
  | [] => pass
  | s :: l => s.seq (chain l)

theorem pass_seq (t : Stage κ β) : pass.seq t = t := funext fun _ => Program.ask_through _ _

theorem seq_assoc (s t u : Stage κ β) : (s.seq t).seq u = s.seq (t.seq u) := by
  funext b
  have hgoOn : (fun m => (t.goOn m).through u.goOn) = (t.seq u).goOn := by
    funext m
    obtain ⟨_ | k, b⟩ := m
    · rfl
    · exact Program.ask_through _ _
  rw [seq, seq, seq, Program.through_through, hgoOn]

theorem chain_append (l l' : List (Stage κ β)) : chain (l ++ l') = (chain l).seq (chain l') := by
  induction l with
  | nil => exact (pass_seq _).symm
  | cons s l ih =>
    rw [List.cons_append, chain, chain, ih]
    exact (seq_assoc _ _ _).symm

/-! ## Rows with names -/

/-- The number bounds how deep calls to rows are nested. -/
def answer (rows : κ → Stage κ β) : Nat → Option κ × β → Option β
  | _, (none, b) => some b
  | 0, (some _, _) => none
  | n + 1, (some k, b) => (rows k b).run (answer rows n)

variable {rows : κ → Stage κ β}

theorem answer_mono {m n : Nat} (hle : m ≤ n) {i : Option κ × β} {b : β}
    (h : answer rows m i = some b) : answer rows n i = some b := by
  induction m generalizing n i b with
  | zero =>
    obtain ⟨_ | k, b'⟩ := i
    · rw [answer] at h ⊢
      exact h
    · cases h
  | succ m ih =>
    obtain ⟨n, rfl⟩ := Nat.exists_eq_add_of_le' (Nat.lt_of_lt_of_le (Nat.succ_pos m) hle)
    obtain ⟨_ | k, b'⟩ := i
    · exact h
    · exact Program.run_mono (fun i o ho => ih (Nat.le_of_succ_le_succ hle) ho) h

/-- The names that are called have a lower rank. -/
def Below (rank : κ → Nat) (n : Nat) (i : Option κ × β) : Prop := ∀ k ∈ i.1, rank k < n

theorem chain_below {rank : κ → Nat} {n : Nat} {l : List (Stage κ β)}
    (h : ∀ s ∈ l, ∀ b, (s b).Spec (Below rank n) (fun _ _ => True) fun _ => True) (b : β) :
    (chain l b).Spec (Below rank n) (fun _ _ => True) fun _ => True := by
  have hpass (m : Option κ × β) (hm : Below rank n m) :
      (Program.ask m : Program _ β β).Spec (Below rank n) (fun _ _ => True) fun _ => True :=
    ⟨hm, fun _ _ => trivial⟩
  induction l generalizing b with
  | nil =>
    refine hpass (none, b) fun k hk => ?_
    cases hk
  | cons s l ih =>
    obtain ⟨hs, hl⟩ := List.forall_mem_cons.mp h
    refine (hs b).through fun m hm => ?_
    obtain ⟨_ | k, b'⟩ := m
    · exact ih hl b'
    · exact hpass (some k, b') hm

/-- Rows that only call rows of lower rank are not nested deeper than that. -/
theorem answer_isSome {rank : κ → Nat}
    (h : ∀ k b, (rows k b).Spec (Below rank (rank k)) (fun _ _ => True) fun _ => True) (n : Nat)
    {i : Option κ × β} (hi : Below rank n i) : (answer rows n i).isSome = true := by
  induction n generalizing i with
  | zero =>
    obtain ⟨_ | k, b⟩ := i
    · rw [answer]
      rfl
    · exact absurd (hi k rfl) (Nat.not_lt_zero _)
  | succ n ih =>
    obtain ⟨_ | k, b⟩ := i
    · rfl
    · rw [answer]
      exact ((h k b).mono (fun i hi' k' hk' => hi' k' hk') (fun _ _ _ => trivial)
        fun _ _ => trivial).isSome fun i hi' =>
          ih fun k' hk' => Nat.lt_of_lt_of_le (hi' k' hk') (Nat.le_of_lt_succ (hi k rfl))

end Stage

end Lib
