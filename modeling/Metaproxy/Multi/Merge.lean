import Mathlib.Algebra.BigOperators.Group.Finset.Basic
import Mathlib.Algebra.BigOperators.Ring.Finset
import Mathlib.Algebra.Order.BigOperators.Group.Finset
import Metaproxy.Lib.Rounds
import Metaproxy.Multi.FrontendSet

/-!
# Multi.Merge

`round_robin` against the plain interleaving of the backends' records (`FrontendSet.page`).

* `mergeLoop_eq` — the loop itself is right: from `q` whole rounds on it adds the jobs that are due.
* `skipAhead_eq` — what the optimisation step adds up. It takes a class of equal counts as if the
  classes below had not been passed: `skip = no_left * min`, not `no_left * (min - omin)`.
* `roundRobin_eq` — hence the jobs are a window of the interleaving, though not always the one that
  starts at `start`.
* `roundRobin_page` — it is the right window if and only if `SkipExact`, and pages that all are
  enumerate every position of every backend once.
-/

namespace Metaproxy
namespace Multi

open Lib

variable {β : Type*}

def queues (sets : List (BackendSet β)) : List (β × Nat) :=
  sets.map fun b => (b.backend, b.count.toNat)

def job (e : β × Nat) : PresentJob β := .make e.1 e.2

/-- The jobs `start`, …, `start + number - 1` of the plain interleaving. -/
def FrontendSet.page (fset : FrontendSet β) (start number : Int) : List (PresentJob β) :=
  (((interleave (queues fset.backendSets)).drop (start - 1).toNat).take number.toNat).map job

/-! ## The merge loop -/

/-- `q` rounds are done: a set is at the next position, or has been served. -/
def At (q : Nat) (l : List (BackendSet β × Int)) : Prop :=
  ∀ e ∈ l, e.2 = q + 1 ∨ (e.1.count < e.2 ∧ e.1.count ≤ q)

theorem at_cons {q : Nat} {e : BackendSet β × Int} {l : List (BackendSet β × Int)} :
    At q (e :: l) ↔ (e.2 = q + 1 ∨ (e.1.count < e.2 ∧ e.1.count ≤ q)) ∧ At q l := by
  simp [At]

theorem nthRound_queues_cons_of_le {q : Nat} {b : BackendSet β} {sets : List (BackendSet β)}
    (h : (q : Int) + 1 ≤ b.count) :
    nthRound (queues (b :: sets)) (q + 1) = (b.backend, q + 1) :: nthRound (queues sets) (q + 1) := by
  have hle : q + 1 ≤ b.count.toNat := by omega
  rw [nthRound, queues, List.map_cons, List.filter_cons_of_pos (by rwa [decide_eq_true_eq]),
    List.map_cons]
  rfl

theorem nthRound_queues_cons_of_lt {q : Nat} {b : BackendSet β} {sets : List (BackendSet β)}
    (h : b.count ≤ q) : nthRound (queues (b :: sets)) (q + 1) = nthRound (queues sets) (q + 1) := by
  have hle : ¬ q + 1 ≤ b.count.toNat := by omega
  rw [nthRound, queues, List.map_cons, List.filter_cons_of_neg (by rwa [decide_eq_true_eq])]
  rfl

/-- A pass takes its jobs from round `q + 1`. When it goes on, the round is done; when it does not,
there are enough jobs or nothing is left. -/
structure PassSpec (start number : Int) (q : Nat) (l : List (BackendSet β × Int)) (p fetched : Int)
    (more : Bool) (jobs : List (PresentJob β)) (m : Merge β) : Prop where
  jobs : m.jobs = jobs ++
    (((nthRound (queues (l.map Prod.fst)) (q + 1)).drop (start - p).toNat).take
      (number - fetched).toNat).map job
  goesOn : m.more = true → At (q + 1) m.at_ ∧ m.at_.map Prod.fst = l.map Prod.fst ∧
    m.p = p + (nthRound (queues (l.map Prod.fst)) (q + 1)).length ∧
    m.fetched = fetched +
      ((nthRound (queues (l.map Prod.fst)) (q + 1)).length - (start - p).toNat : Nat)
  stops : m.more = false →
    (number - fetched).toNat ≤
      (nthRound (queues (l.map Prod.fst)) (q + 1)).length - (start - p).toNat ∨
    (nthRound (queues (l.map Prod.fst)) (q + 1) = [] ∧ more = false)

section Pass

variable {start number p fetched : Int} {q : Nat} {b : BackendSet β} {pos : Int}
  {rest : List (BackendSet β × Int)} {more : Bool} {jobs : List (PresentJob β)} {m : Merge β}

/-- The set has a record in this round, and it is one of those wanted. -/
theorem PassSpec.taken (hle : (q : Int) + 1 ≤ b.count) (hmore : fetched < number)
    (hstart : start ≤ p)
    (hr : PassSpec start number q rest (p + 1) (fetched + 1) true
      (jobs ++ [.make b.backend (q + 1)]) m) :
    PassSpec start number q ((b, (q : Int) + 1) :: rest) p fetched more jobs
      { m with at_ := (b, (q : Int) + 1 + 1) :: m.at_ } := by
  have hround : nthRound (queues (((b, (q : Int) + 1) :: rest).map Prod.fst)) (q + 1) =
      (b.backend, q + 1) :: nthRound (queues (rest.map Prod.fst)) (q + 1) :=
    nthRound_queues_cons_of_le hle
  have hd : (start - p).toNat = 0 := by omega
  have hd' : (start - (p + 1)).toNat = 0 := by omega
  have hn : (number - fetched).toNat = (number - (fetched + 1)).toNat + 1 := by omega
  refine ⟨?_, ?_, ?_⟩
  · rw [hr.jobs, hround, hd, hd', hn]
    simp [job]
  · intro hm
    obtain ⟨h1, h2, h3, h4⟩ := hr.goesOn hm
    rw [hd'] at h4
    refine ⟨at_cons.mpr ⟨.inl (by simp), h1⟩, by simp [h2], ?_, ?_⟩
    · rw [h3, hround, List.length_cons]
      omega
    · rw [h4, hround, hd, List.length_cons]
      omega
  · intro hm
    rcases hr.stops hm with hs | ⟨-, hs⟩
    · rw [hround, hd, List.length_cons]
      omega
    · cases hs

/-- The set has a record in this round, but it comes before those wanted. -/
theorem PassSpec.passed (hle : (q : Int) + 1 ≤ b.count) (hstart : p < start)
    (hr : PassSpec start number q rest (p + 1) fetched true jobs m) :
    PassSpec start number q ((b, (q : Int) + 1) :: rest) p fetched more jobs
      { m with at_ := (b, (q : Int) + 1 + 1) :: m.at_ } := by
  have hround : nthRound (queues (((b, (q : Int) + 1) :: rest).map Prod.fst)) (q + 1) =
      (b.backend, q + 1) :: nthRound (queues (rest.map Prod.fst)) (q + 1) :=
    nthRound_queues_cons_of_le hle
  have hd : (start - p).toNat = (start - (p + 1)).toNat + 1 := by omega
  refine ⟨?_, ?_, ?_⟩
  · rw [hr.jobs, hround, hd, List.drop_succ_cons]
  · intro hm
    obtain ⟨h1, h2, h3, h4⟩ := hr.goesOn hm
    refine ⟨at_cons.mpr ⟨.inl (by simp), h1⟩, by simp [h2], ?_, ?_⟩
    · rw [h3, hround, List.length_cons]
      omega
    · rw [h4, hround, hd, List.length_cons]
      omega
  · intro hm
    rcases hr.stops hm with hs | ⟨-, hs⟩
    · rw [hround, hd, List.length_cons]
      omega
    · cases hs

/-- The set has been served before this round. -/
theorem PassSpec.served (hlt : b.count ≤ q) (hpos : b.count < pos)
    (hr : PassSpec start number q rest p fetched more jobs m) :
    PassSpec start number q ((b, pos) :: rest) p fetched more jobs
      { m with at_ := (b, pos) :: m.at_ } := by
  have hround : nthRound (queues (((b, pos) :: rest).map Prod.fst)) (q + 1) =
      nthRound (queues (rest.map Prod.fst)) (q + 1) :=
    nthRound_queues_cons_of_lt hlt
  refine ⟨?_, ?_, ?_⟩
  · rw [hr.jobs, hround]
  · intro hm
    obtain ⟨h1, h2, h3, h4⟩ := hr.goesOn hm
    refine ⟨at_cons.mpr ⟨.inr ?_, h1⟩, by simp [h2], by rw [h3, hround], by rw [h4, hround]⟩
    simp only
    omega
  · intro hm
    rw [hround]
    exact hr.stops hm

end Pass

theorem mergePass_spec (start number : Int) {q : Nat} {l : List (BackendSet β × Int)}
    (h : At q l) (p fetched : Int) (more : Bool) (jobs : List (PresentJob β)) :
    PassSpec start number q l p fetched more jobs
      (mergePass start number l p fetched more jobs) := by
  induction l generalizing p fetched more jobs with
  | nil =>
    have hround : nthRound (queues (([] : List (BackendSet β × Int)).map Prod.fst)) (q + 1) = [] := rfl
    refine ⟨?_, ?_, ?_⟩
    · rw [hround]
      simp [mergePass]
    · intro _
      exact ⟨by simp [mergePass, At], rfl, by rw [hround]; simp [mergePass],
        by rw [hround]; simp [mergePass]⟩
    · intro hm
      exact .inr ⟨hround, hm⟩
  | cons e rest ih =>
    obtain ⟨b, pos⟩ := e
    obtain ⟨hpos, hrest⟩ := at_cons.mp h
    simp only at hpos
    rw [mergePass]
    by_cases hdone : fetched ≥ number
    · -- enough jobs: the pass is left
      have h0 : (number - fetched).toNat = 0 := by omega
      rw [if_pos hdone]
      refine ⟨by simp [h0], ?_, fun _ => .inl (by omega)⟩
      intro hm
      cases hm
    rw [if_neg hdone]
    by_cases hle : pos ≤ b.count
    · obtain rfl : pos = q + 1 := hpos.resolve_right fun h => absurd hle (by omega)
      rw [if_pos hle]
      by_cases hstart : p ≥ start
      · rw [if_pos hstart]
        exact (ih hrest (p + 1) (fetched + 1) true _).taken hle (by omega) hstart
      · rw [if_neg hstart]
        exact (ih hrest (p + 1) fetched true jobs).passed hle (by omega)
    · rw [if_neg hle]
      exact (ih hrest p fetched more jobs).served (by omega) (by omega)

/-- From `q` whole rounds on, with the next job being number `p`, the loop adds the jobs from
`start` on. -/
theorem mergeLoop_eq (start number : Int) {q : Nat} {l : List (BackendSet β × Int)} (h : At q l)
    (p fetched : Int) (jobs : List (PresentJob β)) :
    mergeLoop start number l p fetched jobs = jobs ++
      (((after (queues (l.map Prod.fst)) q).drop (start - p).toNat).take
        (number - fetched).toNat).map job := by
  induction hn : remaining l using Nat.strong_induction_on generalizing q l p fetched jobs with
  | _ n ih =>
    have hp := mergePass_spec start number h p fetched false jobs
    have hlt := remaining_mergePass_lt start number l p fetched jobs
    rw [mergeLoop]
    generalize mergePass start number l p fetched false jobs = m at hp hlt
    rw [after_succ, List.drop_append, List.take_append, List.map_append, List.length_drop]
    by_cases hm : m.more = true
    · obtain ⟨h1, h2, h3, h4⟩ := hp.goesOn hm
      rw [dif_pos hm, ih _ (hn ▸ hlt hm) h1 _ _ _ rfl, hp.jobs, h2, List.append_assoc]
      have hd : (start - m.p).toNat =
          (start - p).toNat - (nthRound (queues (l.map Prod.fst)) (q + 1)).length := by
        omega
      have hf : (number - m.fetched).toNat = (number - fetched).toNat -
          ((nthRound (queues (l.map Prod.fst)) (q + 1)).length - (start - p).toNat) := by
        omega
      rw [hd, hf]
    · rw [dif_neg hm, hp.jobs]
      rcases hp.stops (by simpa using hm) with hs | ⟨hs, -⟩
      · simp [Nat.sub_eq_zero_of_le hs]
      · have hnil := after_of_nthRound_eq_nil hs
        rw [after_succ, List.append_eq_nil_iff] at hnil
        simp [hnil.2]

/-! ## The skip step -/

section Classes

variable (counts : List Nat)

/-- The hit counts that occur, a class of equal counts being one. -/
def classes : Finset Nat := counts.toFinset.filter (0 < ·)

/-- How many sets have at least `d` hits. -/
def atLeast (d : Nat) : Nat := counts.countP fun c => d ≤ c

/-- `d` hits of each of these sets, added up for the classes to `d`. -/
def weight (d : Nat) : Nat := ∑ c ∈ (classes counts).filter (· ≤ d), c * atLeast counts c

/-- The classes whose weight lies before `start`. -/
def passed (start : Nat) : Finset Nat := (classes counts).filter fun d => weight counts d < start

def passedWeight (start : Nat) : Nat := ∑ c ∈ passed counts start, c * atLeast counts c

/-- How many sets are in the classes above. -/
def left (start : Nat) : Nat := counts.countP fun c => 0 < c ∧ c ∉ passed counts start

/-- The rounds that still fit before `start` for these. -/
def inside (start : Nat) : Nat := (start - 1 - passedWeight counts start) / left counts start

def skippedRounds (start : Nat) : Nat := ∑ c ∈ passed counts start, c + inside counts start

variable {counts}

theorem mem_classes {c : Nat} : c ∈ classes counts ↔ c ∈ counts ∧ 0 < c := by
  simp [classes]

theorem weight_mono (counts : List Nat) {c d : Nat} (h : c ≤ d) :
    weight counts c ≤ weight counts d := by
  refine Finset.sum_le_sum_of_subset fun x hx => ?_
  simp only [Finset.mem_filter] at hx ⊢
  exact ⟨hx.1, hx.2.trans h⟩

theorem weight_zero : weight counts 0 = 0 := by
  refine Finset.sum_eq_zero fun c hc => ?_
  have := (Finset.mem_filter.mp hc).2
  simp [show c = 0 by omega]

/-- The classes to `o` are the passed ones when the next class would go too far. -/
theorem passed_eq {start o : Nat} (h1 : weight counts o < start)
    (h2 : ∀ d ∈ classes counts, o < d → start ≤ weight counts d) :
    passed counts start = (classes counts).filter (· ≤ o) := by
  ext d
  simp only [passed, Finset.mem_filter, and_congr_right_iff]
  intro hd
  constructor
  · intro hlt
    by_contra hle
    have := h2 d hd (by omega)
    omega
  · intro hle
    have := weight_mono counts hle
    omega

theorem left_eq {start o : Nat} (h : passed counts start = (classes counts).filter (· ≤ o)) :
    left counts start = counts.countP fun c => o < c := by
  refine List.countP_congr fun c hc => ?_
  simp only [h, Finset.mem_filter, mem_classes, decide_eq_true_eq]
  constructor
  · rintro ⟨hpos, hno⟩
    by_contra hle
    exact hno ⟨⟨hc, hpos⟩, by omega⟩
  · intro hlt
    exact ⟨by omega, fun hle => by omega⟩

/-- The classes to the one after `o`. -/
theorem filter_le_next {o d : Nat} (hd : d ∈ classes counts) (hlt : o < d)
    (hmin : ∀ c ∈ classes counts, o < c → d ≤ c) :
    (classes counts).filter (· ≤ d) = insert d ((classes counts).filter (· ≤ o)) := by
  ext c
  simp only [Finset.mem_filter, Finset.mem_insert]
  constructor
  · rintro ⟨hc, hle⟩
    rcases Nat.lt_or_ge o c with h | h
    · exact .inl (by have := hmin c hc h; omega)
    · exact .inr ⟨hc, h⟩
  · rintro (rfl | ⟨hc, hle⟩)
    · exact ⟨hd, le_rfl⟩
    · exact ⟨hc, by omega⟩

theorem weight_next {o d : Nat} (hd : d ∈ classes counts) (hlt : o < d)
    (hmin : ∀ c ∈ classes counts, o < c → d ≤ c) :
    weight counts d = weight counts o + d * atLeast counts d := by
  rw [weight, filter_le_next hd hlt hmin, Finset.sum_insert, Nat.add_comm, weight]
  simp only [Finset.mem_filter, not_and, not_le]
  omega

end Classes

def hits (sets : List (BackendSet β)) : List Nat :=
  sets.map fun b => b.count.toNat

theorem countP_hits (sets : List (BackendSet β)) (o : Nat) :
    (hits sets).countP (fun c => o < c) = sets.countP fun b => (o : Int) < b.count := by
  rw [hits, List.countP_map]
  refine List.countP_congr fun b _ => ?_
  simp only [Function.comp_apply, decide_eq_true_eq]
  omega

/-- The least class above `o`, as the code finds it. -/
theorem nextClass_hits {sets : List (BackendSet β)} {o : Nat}
    (h : (nextClass o sets).2 ≠ 0) : ∃ d ∈ classes (hits sets), (nextClass o sets).1 = d ∧ o < d ∧
      (∀ c ∈ classes (hits sets), o < c → d ≤ c) ∧ (nextClass o sets).2 = atLeast (hits sets) d := by
  obtain ⟨⟨b, hb, heq⟩, hlt, hmin⟩ := nextClass_min h
  have hmin' : ∀ c ∈ hits sets, o < c → (nextClass o sets).1.toNat ≤ c := by
    intro c hc hoc
    obtain ⟨b', hb', rfl⟩ := List.mem_map.mp hc
    have := hmin b' hb' (by omega)
    omega
  refine ⟨(nextClass o sets).1.toNat, mem_classes.mpr ⟨?_, by omega⟩, by omega, by omega, ?_, ?_⟩
  · exact List.mem_map.mpr ⟨b, hb, by rw [heq]⟩
  · intro c hc hoc
    exact hmin' c (mem_classes.mp hc).1 hoc
  · rw [nextClass_noLeft, ← countP_hits, atLeast]
    congr 1
    refine List.countP_congr fun c hc => ?_
    simp only [decide_eq_true_eq]
    constructor
    · intro hoc
      exact hmin' c hc hoc
    · intro hle
      omega

theorem map_const_add (sets : List (BackendSet β)) (x y : Int) :
    (sets.map fun _ => x).map (· + y) = sets.map fun _ => x + y := by
  rw [List.map_map]
  rfl

theorem skipAhead_eq (sets : List (BackendSet β)) (start o : Nat)
    (h : weight (hits sets) o < start) :
    skipAhead sets start (1 + weight (hits sets) o)
        (sets.map fun _ => 1 + ((∑ c ∈ (classes (hits sets)).filter (· ≤ o), c : Nat) : Int)) o =
      (1 + ((passedWeight (hits sets) start +
          left (hits sets) start * inside (hits sets) start : Nat) : Int),
        sets.map fun _ => 1 + (skippedRounds (hits sets) start : Int)) := by
  induction hn : sets.countP (fun b => (o : Int) < b.count) using Nat.strong_induction_on
    generalizing o with
  | _ n ih =>
    rw [skipAhead]
    simp only
    by_cases h0 : (nextClass o sets).2 = 0
    · -- no class above
      have hnone : (hits sets).countP (fun c => o < c) = 0 := by
        have := nextClass_noLeft o sets
        rw [countP_hits]
        omega
      have hpassed : passed (hits sets) start = (classes (hits sets)).filter (· ≤ o) := by
        refine passed_eq h fun d hd hlt => ?_
        rw [List.countP_eq_zero] at hnone
        exact absurd (decide_eq_true hlt) (hnone d (mem_classes.mp hd).1)
      have hleft : left (hits sets) start = 0 := by rw [left_eq hpassed, hnone]
      rw [dif_pos h0, inside, hleft, skippedRounds, inside, hleft, passedWeight, hpassed]
      simp [weight]
    · obtain ⟨d, hd, hmin, hlt, hleast, hnoLeft⟩ := nextClass_hits h0
      have hnext := weight_next hd hlt hleast
      rw [dif_neg h0, hmin, hnoLeft]
      have hcast : (atLeast (hits sets) d : Int) * d = ((d * atLeast (hits sets) d : Nat) : Int) := by
        push_cast
        rw [Int.mul_comm]
      by_cases hin : 1 + (weight (hits sets) o : Int) + atLeast (hits sets) d * d > start
      · -- into the present range
        have hpassed : passed (hits sets) start = (classes (hits sets)).filter (· ≤ o) := by
          refine passed_eq h fun c hc hoc => ?_
          have := weight_mono (hits sets) (hleast c hc hoc)
          rw [hcast] at hin
          omega
        have hleft : left (hits sets) start = atLeast (hits sets) d := by
          rw [left_eq hpassed, countP_hits]
          have := nextClass_noLeft o sets
          omega
        have hweight : passedWeight (hits sets) start = weight (hits sets) o := by
          rw [passedWeight, hpassed]
          rfl
        have hdiv : ((start : Int) - (1 + weight (hits sets) o)).tdiv (atLeast (hits sets) d) =
            (inside (hits sets) start : Nat) := by
          rw [inside, hleft, hweight, Int.ofNat_tdiv]
          congr 1
          omega
        rw [if_pos hin, hdiv, map_const_add, hleft, hweight, skippedRounds, hpassed]
        push_cast
        simp only [Int.add_assoc]
      · have hlt' : weight (hits sets) d < start := by
          rw [hcast] at hin
          omega
        have hdec := countP_nextClass_lt h0
        rw [hmin] at hdec
        have hstep := ih _ (hn ▸ hdec) d hlt' rfl
        have hnot : d ∉ (classes (hits sets)).filter (· ≤ o) := by
          simp only [Finset.mem_filter, not_and, not_le]
          omega
        rw [filter_le_next hd hlt hleast, Finset.sum_insert hnot, hnext] at hstep
        rw [if_neg hin, map_const_add, ← hstep, hcast]
        push_cast
        congr 1
        · omega
        · congr 1
          funext _
          omega

theorem zip_map_const (sets : List (BackendSet β)) (x : Int) :
    (sets.zip (sets.map fun _ => x)) = sets.map fun b => (b, x) := by
  induction sets with
  | nil => rfl
  | cons b sets ih => simp only [List.map_cons, List.zip_cons_cons, ih]

/-- What is skipped less than to `start`, by rounding off. -/
def rest (counts : List Nat) (start : Nat) : Nat :=
  (start - 1 - passedWeight counts start) % left counts start

theorem passedWeight_lt (counts : List Nat) {start : Nat} (h : 1 ≤ start) :
    passedWeight counts start < start := by
  rcases (passed counts start).eq_empty_or_nonempty with hp | hp
  · rw [passedWeight, hp, Finset.sum_empty]
    omega
  · -- the greatest passed class has the weight of all of them
    have hmem := Finset.mem_filter.mp ((passed counts start).max'_mem hp)
    refine Nat.lt_of_le_of_lt (Finset.sum_le_sum_of_subset fun c hc => ?_) hmem.2
    exact Finset.mem_filter.mpr ⟨(Finset.mem_filter.mp hc).1, Finset.le_max' _ c hc⟩

theorem passedWeight_add_rest (counts : List Nat) {start : Nat} (h : 1 ≤ start) :
    passedWeight counts start + left counts start * inside counts start + rest counts start =
      start - 1 := by
  have := passedWeight_lt counts h
  have hdiv := Nat.div_add_mod (start - 1 - passedWeight counts start) (left counts start)
  rw [inside, rest]
  omega

/-- The jobs of the code: a window of the plain interleaving that starts after `skippedRounds`
rounds and `rest` jobs. -/
theorem roundRobin_eq (fset : FrontendSet β) (start : Nat) (h : 1 ≤ start) (number : Int) :
    fset.roundRobin start number = (((interleave (queues fset.backendSets)).drop
      (((hits fset.backendSets).map fun c => min c (skippedRounds (hits fset.backendSets) start)).sum
        + rest (hits fset.backendSets) start)).take number.toNat).map job := by
  have hskip := skipAhead_eq fset.backendSets start 0 (by rw [weight_zero]; omega)
  have hnone : (classes (hits fset.backendSets)).filter (· ≤ 0) = ∅ := by
    ext c
    simp only [Finset.mem_filter, mem_classes, Finset.notMem_empty, iff_false]
    omega
  rw [weight_zero, hnone] at hskip
  simp only [Finset.sum_empty, Nat.cast_zero, Int.add_zero] at hskip
  have hat : At (skippedRounds (hits fset.backendSets) start)
      (fset.backendSets.map fun b =>
        (b, 1 + (skippedRounds (hits fset.backendSets) start : Int))) := by
    intro e he
    obtain ⟨b, -, rfl⟩ := List.mem_map.mp he
    exact .inl (Int.add_comm _ _)
  have hfst : (fset.backendSets.map fun b =>
      (b, 1 + (skippedRounds (hits fset.backendSets) start : Int))).map Prod.fst =
        fset.backendSets := by
    simp [Function.comp_def]
  have hsum := passedWeight_add_rest (hits fset.backendSets) h
  have hrest : ((start : Int) - (1 + ((passedWeight (hits fset.backendSets) start +
      left (hits fset.backendSets) start * inside (hits fset.backendSets) start : Nat) : Int))).toNat
        = rest (hits fset.backendSets) start := by
    omega
  have hmin : (queues fset.backendSets).map (fun e =>
      min e.2 (skippedRounds (hits fset.backendSets) start)) =
        (hits fset.backendSets).map fun c => min c (skippedRounds (hits fset.backendSets) start) := by
    simp [queues, hits, Function.comp_def]
  rw [FrontendSet.roundRobin]
  simp only [hskip, zip_map_const]
  rw [mergeLoop_eq start number hat, hfst, after_eq_drop, List.drop_drop, hrest, hmin]
  simp

/-! ## When the skip step is exact -/

/-- At most one class is passed, and no set above it is skipped beyond its end. -/
def NoOvercount (counts : List Nat) (start : Nat) : Prop :=
  (∀ c ∈ passed counts start, ∀ d ∈ passed counts start, c = d) ∧
  ∀ d ∈ passed counts start, ∀ c ∈ counts, d < c →
    start ≤ d * atLeast counts d + left counts start * (c - d + 1)

/-- Nothing is left for the code after the skipped rounds and the rest. -/
def PastEnd (counts : List Nat) (start : Nat) : Prop :=
  (counts.map fun c => c - skippedRounds counts start).sum ≤ rest counts start

def SkipExact (counts : List Nat) (start number : Nat) : Prop :=
  number = 0 ∨ NoOvercount counts start ∨ PastEnd counts start

instance (counts : List Nat) (start number : Nat) : Decidable (SkipExact counts start number) :=
  inferInstanceAs (Decidable (number = 0 ∨
    ((∀ c ∈ passed counts start, ∀ d ∈ passed counts start, c = d) ∧
      ∀ d ∈ passed counts start, ∀ c ∈ counts, d < c →
        start ≤ d * atLeast counts d + left counts start * (c - d + 1)) ∨
    (counts.map fun c => c - skippedRounds counts start).sum ≤ rest counts start))

/-- What the skip step adds to `p` for a set of `c` hits. -/
def share (counts : List Nat) (start c : Nat) : Nat :=
  ∑ d ∈ (passed counts start).filter (· ≤ c), d +
    if 0 < c ∧ c ∉ passed counts start then inside counts start else 0

theorem sum_mul_countP (s : Finset Nat) (l : List Nat) :
    ∑ d ∈ s, d * l.countP (fun c => d ≤ c) = (l.map fun c => ∑ d ∈ s.filter (· ≤ c), d).sum := by
  induction l with
  | nil => simp
  | cons c l ih =>
    simp only [List.countP_cons, List.map_cons, List.sum_cons, Nat.mul_add, Finset.sum_add_distrib,
      ih, Finset.sum_filter, decide_eq_true_eq, mul_ite, mul_one, mul_zero]
    omega

theorem countP_mul (p : Nat → Prop) [DecidablePred p] (x : Nat) (l : List Nat) :
    l.countP (fun c => p c) * x = (l.map fun c => if p c then x else 0).sum := by
  induction l with
  | nil => simp
  | cons c l ih =>
    by_cases h : p c
    · simp [h, ih, Nat.add_mul, Nat.add_comm]
    · simp [h, ih]

theorem sum_share (counts : List Nat) (start : Nat) :
    passedWeight counts start + left counts start * inside counts start =
      (counts.map (share counts start)).sum := by
  have hmap : counts.map (share counts start) = counts.map fun c =>
      ∑ d ∈ (passed counts start).filter (· ≤ c), d +
        if 0 < c ∧ c ∉ passed counts start then inside counts start else 0 :=
    rfl
  rw [hmap, List.sum_map_add, ← sum_mul_countP, ← countP_mul]
  rfl

theorem sum_eq_iff {l : List Nat} {f g : Nat → Nat} (h : ∀ c ∈ l, f c ≤ g c) :
    (l.map f).sum = (l.map g).sum ↔ ∀ c ∈ l, f c = g c := by
  induction l with
  | nil => simp
  | cons c l ih =>
    have hc := h c (by simp)
    have hle : (l.map f).sum ≤ (l.map g).sum :=
      List.sum_le_sum fun c' hc' => h c' (by simp [hc'])
    have hl := ih fun c' hc' => h c' (by simp [hc'])
    simp only [List.map_cons, List.sum_cons, List.mem_cons, forall_eq_or_imp]
    rw [← hl]
    omega

section Share

variable {counts : List Nat} {start c : Nat}

theorem le_of_mem_passed (h : c ∈ passed counts start) : c ≤ ∑ d ∈ passed counts start, d :=
  Finset.single_le_sum (f := fun d => d) (fun _ _ => Nat.zero_le _) h

theorem pos_of_mem_passed (h : c ∈ passed counts start) : 0 < c :=
  (mem_classes.mp (Finset.mem_filter.mp h).1).2

/-- The passed classes lie below the others. -/
theorem lt_of_passed {d : Nat} (hd : d ∈ passed counts start) (hc : c ∈ counts) (hpos : 0 < c)
    (h : c ∉ passed counts start) : d < c := by
  by_contra hle
  have hw := weight_mono counts (show c ≤ d by omega)
  have hd' := (Finset.mem_filter.mp hd).2
  exact h (Finset.mem_filter.mpr ⟨mem_classes.mpr ⟨hc, hpos⟩, by omega⟩)

theorem share_passed (h : c ∈ passed counts start) :
    share counts start c = ∑ d ∈ (passed counts start).filter (· ≤ c), d := by
  simp [share, h]

theorem share_left (hc : c ∈ counts) (hpos : 0 < c) (h : c ∉ passed counts start) :
    share counts start c = skippedRounds counts start := by
  have hall : (passed counts start).filter (· ≤ c) = passed counts start := by
    refine Finset.filter_true_of_mem fun d hd => ?_
    exact (lt_of_passed hd hc hpos h).le
  rw [share, hall, if_pos ⟨hpos, h⟩, skippedRounds]

theorem min_le_share (hc : c ∈ counts) :
    min c (skippedRounds counts start) ≤ share counts start c := by
  by_cases hpos : 0 < c
  · by_cases h : c ∈ passed counts start
    · have hmem : c ∈ (passed counts start).filter (· ≤ c) := Finset.mem_filter.mpr ⟨h, le_rfl⟩
      have hle := Finset.single_le_sum (f := fun d => d) (fun _ _ => Nat.zero_le _) hmem
      rw [share_passed h]
      omega
    · rw [share_left hc hpos h]
      omega
  · omega

/-- A passed class is counted right when no other one is below it. -/
theorem share_passed_eq_iff (h : c ∈ passed counts start) :
    min c (skippedRounds counts start) = share counts start c ↔
      ∀ d ∈ passed counts start, d ≤ c → d = c := by
  have hmin : min c (skippedRounds counts start) = c := by
    have := le_of_mem_passed h
    rw [skippedRounds]
    omega
  have hmem : c ∈ (passed counts start).filter (· ≤ c) := Finset.mem_filter.mpr ⟨h, le_rfl⟩
  rw [hmin, share_passed h, ← Finset.add_sum_erase _ _ hmem]
  constructor
  · intro heq d hd hle
    by_contra hne
    have hd' : d ∈ ((passed counts start).filter (· ≤ c)).erase c :=
      Finset.mem_erase.mpr ⟨hne, Finset.mem_filter.mpr ⟨hd, hle⟩⟩
    have hle' := Finset.single_le_sum (f := fun d => d) (fun _ _ => Nat.zero_le _) hd'
    have := pos_of_mem_passed hd
    omega
  · intro hall
    have hzero : ∑ d ∈ ((passed counts start).filter (· ≤ c)).erase c, d = 0 := by
      refine Finset.sum_eq_zero fun d hd => ?_
      obtain ⟨hne, hd⟩ := Finset.mem_erase.mp hd
      exact absurd (hall d (Finset.mem_filter.mp hd).1 (Finset.mem_filter.mp hd).2) hne
    omega

theorem share_left_eq_iff (hc : c ∈ counts) (hpos : 0 < c) (h : c ∉ passed counts start) :
    min c (skippedRounds counts start) = share counts start c ↔
      skippedRounds counts start ≤ c := by
  rw [share_left hc hpos h]
  omega

/-- When no class is passed the rounds skipped are less than the least class. -/
theorem skippedRounds_le_of_empty (hs : 1 ≤ start) (h : passed counts start = ∅) (hc : c ∈ counts)
    (hpos : 0 < c) : skippedRounds counts start ≤ c := by
  have hne : (classes counts).Nonempty := ⟨c, mem_classes.mpr ⟨hc, hpos⟩⟩
  have hmem := (classes counts).min'_mem hne
  generalize hm : (classes counts).min' hne = m at hmem
  have hleast : ∀ d ∈ classes counts, 0 < d → m ≤ d := fun d hd _ => hm ▸ Finset.min'_le _ d hd
  have hmpos := (mem_classes.mp hmem).2
  have hweight := weight_next hmem hmpos hleast
  have hnot : start ≤ weight counts m := by
    by_contra hlt
    have : m ∈ passed counts start := Finset.mem_filter.mpr ⟨hmem, by omega⟩
    rw [h] at this
    cases this
  have hleft : left counts start = atLeast counts m := by
    refine List.countP_congr fun c' hc' => ?_
    simp only [h, Finset.notMem_empty, not_false_eq_true, and_true, decide_eq_true_eq]
    constructor
    · intro hpos'
      exact hleast c' (mem_classes.mpr ⟨hc', hpos'⟩) hpos'
    · intro hle
      omega
  have hlt : inside counts start < m + 1 := by
    have hatLeast : 0 < atLeast counts m :=
      List.countP_pos_iff.mpr ⟨m, (mem_classes.mp hmem).1, by simp⟩
    rw [inside, hleft, Nat.div_lt_iff_lt_mul hatLeast, Nat.add_mul]
    rw [weight_zero] at hweight
    omega
  have hmc := hleast c (mem_classes.mpr ⟨hc, hpos⟩) hpos
  rw [skippedRounds, h, Finset.sum_empty]
  omega

/-- When `d` alone is passed, a set above it is not skipped beyond its end. -/
theorem skippedRounds_le_iff {d : Nat} (hs : 1 ≤ start) (h : passed counts start = {d})
    (hc : c ∈ counts) (hlt : d < c) : skippedRounds counts start ≤ c ↔
      start ≤ d * atLeast counts d + left counts start * (c - d + 1) := by
  have hleft : 0 < left counts start := by
    refine List.countP_pos_iff.mpr ⟨c, hc, ?_⟩
    simp only [h, Finset.mem_singleton, decide_eq_true_eq]
    omega
  have hweight : passedWeight counts start = d * atLeast counts d := by
    rw [passedWeight, h, Finset.sum_singleton]
  have hbefore := passedWeight_lt counts hs
  have hdiv := Nat.div_lt_iff_lt_mul hleft (x := start - 1 - d * atLeast counts d)
    (y := c - d + 1)
  rw [skippedRounds, h, Finset.sum_singleton, inside, hweight]
  rw [Nat.mul_comm (left counts start)]
  omega

theorem sum_min_eq_iff (hs : 1 ≤ start) :
    (counts.map fun c => min c (skippedRounds counts start)).sum =
        passedWeight counts start + left counts start * inside counts start ↔
      NoOvercount counts start := by
  rw [sum_share, sum_eq_iff fun c hc => min_le_share hc]
  constructor
  · intro hall
    have hone : ∀ c ∈ passed counts start, ∀ d ∈ passed counts start, c = d := by
      intro c hc d hd
      have hcc := (mem_classes.mp (Finset.mem_filter.mp hc).1).1
      have hdd := (mem_classes.mp (Finset.mem_filter.mp hd).1).1
      rcases Nat.le_total c d with hle | hle
      · exact (share_passed_eq_iff hd).mp (hall d hdd) c hc hle
      · exact ((share_passed_eq_iff hc).mp (hall c hcc) d hd hle).symm
    refine ⟨hone, fun d hd c hc hlt => ?_⟩
    have hnot : c ∉ passed counts start := fun hc' => by
      have := hone c hc' d hd
      omega
    have hsingle : passed counts start = {d} :=
      Finset.eq_singleton_iff_unique_mem.mpr ⟨hd, fun c hc => hone c hc d hd⟩
    exact (skippedRounds_le_iff hs hsingle hc hlt).mp
      ((share_left_eq_iff hc (by omega) hnot).mp (hall c hc))
  · rintro ⟨hone, hin⟩ c hc
    rcases Nat.eq_zero_or_pos c with rfl | hpos
    · have hz : (passed counts start).filter (· ≤ 0) = ∅ := by
        refine Finset.filter_false_of_mem fun d hd => ?_
        have := pos_of_mem_passed hd
        omega
      rw [share, hz]
      simp
    · by_cases hmem : c ∈ passed counts start
      · exact (share_passed_eq_iff hmem).mpr fun d hd _ => hone d hd c hmem
      · refine (share_left_eq_iff hc hpos hmem).mpr ?_
        rcases (passed counts start).eq_empty_or_nonempty with hp | ⟨d, hd⟩
        · exact skippedRounds_le_of_empty hs hp hc hpos
        · have hsingle : passed counts start = {d} :=
            Finset.eq_singleton_iff_unique_mem.mpr ⟨hd, fun c hc => hone c hc d hd⟩
          have hlt := lt_of_passed hd hc hpos hmem
          exact (skippedRounds_le_iff hs hsingle hc hlt).mpr (hin d hd c hc hlt)

end Share

/-! ## The merged pages -/

theorem job_injective : Function.Injective (job : β × Nat → PresentJob β) := by
  rintro ⟨b, x⟩ ⟨b', x'⟩ h
  simpa [job, PresentJob.make] using h

theorem nodup_queues (fset : FrontendSet β) : ((queues fset.backendSets).map Prod.fst).Nodup := by
  have hmap : (queues fset.backendSets).map Prod.fst =
      fset.backendSets.map BackendSet.backend := by
    simp [queues, Function.comp_def]
  rw [hmap]
  exact fset.distinct

theorem sum_queues (sets : List (BackendSet β)) :
    ((queues sets).map Prod.snd).sum = (hits sets).sum := by
  simp [queues, hits, Function.comp_def]

theorem roundRobin_eq_page_iff (fset : FrontendSet β) (start : Nat) (h : 1 ≤ start)
    (number : Int) :
    fset.roundRobin start number = fset.page start number ↔
      SkipExact (hits fset.backendSets) start number.toNat := by
  have hstart : ((start : Int) - 1).toNat = start - 1 := by omega
  rw [roundRobin_eq fset start h, FrontendSet.page, job_injective.list_map.eq_iff, hstart,
    take_drop_inj (nodup_interleave (nodup_queues fset)), length_interleave, sum_queues, SkipExact,
    ← sum_min_eq_iff h, PastEnd]
  generalize hits fset.backendSets = counts
  have hle : (counts.map fun c => min c (skippedRounds counts start)).sum ≤
      passedWeight counts start + left counts start * inside counts start := by
    rw [sum_share]
    exact List.sum_le_sum fun c hc => min_le_share hc
  have hrest := passedWeight_add_rest counts h
  have hsum := sum_min_add_sum_sub (counts.map fun c => ((), c)) (skippedRounds counts start)
  simp only [List.map_map, Function.comp_def, List.map_id'] at hsum
  omega

/-- The jobs of a sequence of pages, the first of which starts at `start`. -/
def FrontendSet.pages (fset : FrontendSet β) : Nat → List Nat → List (PresentJob β)
  | _, [] => []
  | start, number :: numbers =>
    fset.roundRobin start number ++ fset.pages (start + number) numbers

def PagesExact (counts : List Nat) : Nat → List Nat → Prop
  | _, [] => True
  | start, number :: numbers =>
    SkipExact counts start number ∧ PagesExact counts (start + number) numbers

theorem pages_eq (fset : FrontendSet β) {start : Nat} (h : 1 ≤ start) {numbers : List Nat}
    (hok : PagesExact (hits fset.backendSets) start numbers) :
    fset.pages start numbers = (((interleave (queues fset.backendSets)).drop (start - 1)).take
      numbers.sum).map job := by
  induction numbers generalizing start with
  | nil => simp [FrontendSet.pages]
  | cons number numbers ih =>
    have hpage := (roundRobin_eq_page_iff fset start h number).mpr hok.1
    have hstart : ((start : Int) - 1).toNat = start - 1 := by omega
    have hnext : start + number - 1 = start - 1 + number := by omega
    rw [FrontendSet.pages, hpage, ih (by omega) hok.2, FrontendSet.page, hstart, hnext,
      List.sum_cons, List.take_add, List.map_append, List.drop_drop]
    rfl

theorem mem_interleave_queues {fset : FrontendSet β} {b : β} {pos : Nat} :
    (b, pos) ∈ interleave (queues fset.backendSets) ↔
      ∃ bset ∈ fset.backendSets, bset.backend = b ∧ 1 ≤ pos ∧ (pos : Int) ≤ bset.count := by
  simp only [mem_interleave, queues, List.mem_map, Prod.mk.injEq]
  constructor
  · rintro ⟨hpos, c, ⟨bset, hmem, rfl, rfl⟩, hle⟩
    exact ⟨bset, hmem, rfl, hpos, by omega⟩
  · rintro ⟨bset, hmem, rfl, hpos, hle⟩
    exact ⟨hpos, bset.count.toNat, ⟨bset, hmem, rfl, rfl⟩, by omega⟩

/-- `round_robin` gives the page of the plain interleaving if and only if the skip step is exact
there. Pages that meet this, from the first record to the last, have every position of every
backend once. -/
theorem roundRobin_page (fset : FrontendSet β) (start number : Int) (hs : 1 ≤ start) :
    (fset.roundRobin start number = fset.page start number ↔
      SkipExact (hits fset.backendSets) start.toNat number.toNat) ∧
    ∀ numbers, PagesExact (hits fset.backendSets) 1 numbers →
      (hits fset.backendSets).sum ≤ numbers.sum →
      (fset.pages 1 numbers).Nodup ∧
      ∀ b pos, job (b, pos) ∈ fset.pages 1 numbers ↔
        ∃ bset ∈ fset.backendSets, bset.backend = b ∧ 1 ≤ pos ∧ (pos : Int) ≤ bset.count := by
  constructor
  · have hcast : ((start.toNat : Nat) : Int) = start := by omega
    have := roundRobin_eq_page_iff fset start.toNat (by omega) number
    rwa [hcast] at this
  · intro numbers hok hall
    have hlen : (interleave (queues fset.backendSets)).length ≤ numbers.sum := by
      rw [length_interleave, sum_queues]
      exact hall
    rw [pages_eq fset (Nat.le_refl 1) hok, Nat.sub_self, List.drop_zero, List.take_of_length_le hlen]
    refine ⟨(nodup_interleave (nodup_queues fset)).map job_injective, fun b pos => ?_⟩
    rw [List.mem_map_of_injective job_injective, mem_interleave_queues]

/-! ## Three backends -/

/-- Backends with one, two and five hits. -/
def threeSets : FrontendSet String where
  setname := "1"
  backendSets := [⟨"a", 1⟩, ⟨"b", 2⟩, ⟨"c", 5⟩]
  distinct := by decide

theorem roundRobin_page_four :
    threeSets.roundRobin 4 2 = [.make "b" 2, .make "c" 2] ∧
      (threeSets.pages 1 [3, 5]).Nodup := by
  have hexact : SkipExact (hits threeSets.backendSets) 4 2 := by decide
  have hpages : PagesExact (hits threeSets.backendSets) 1 [3, 5] :=
    ⟨by decide, by decide, trivial⟩
  obtain ⟨hpage, hall⟩ := roundRobin_page threeSets 4 2 (by decide)
  exact ⟨(hpage.mpr hexact).trans (by decide), (hall [3, 5] hpages (by decide)).1⟩

/-- The eighth and last record is the fifth of `c`; the code takes the fourth. -/
theorem roundRobin_eight :
    threeSets.roundRobin 8 1 = [.make "c" 4] ∧ threeSets.page 8 1 = [.make "c" 5] := by
  have h := roundRobin_eq threeSets 8 (by decide) 1
  exact ⟨h.trans (by decide), by decide⟩

end Multi
end Metaproxy
