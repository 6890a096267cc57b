import Metaproxy.Multi.Machine

/-!
# Multi.Overflow

When do the hit counts of the backends fit? All windows of a client need to be served without a
value out of range, and to enumerate as many records as the search announces (`CountsFit`).

The values of `round_robin` go one beyond the announced count. Its skip step adds up more than the
records it skips, and these sums must stay in range for as long as they are within the announced
count (`SkipsFit`). `counts_fit_iff` says that this is all.
-/

namespace Metaproxy
namespace Multi

open Lib

variable {β : Type*}

/-- The records of the window are among those announced. -/
structure Window (announced start number : Int) : Prop where
  one_le : 1 ≤ start
  le_announced : start ≤ announced
  nonneg : 0 ≤ number
  last_le : start + number - 1 ≤ announced

/-- The weight of the classes below `d`. -/
def weightBelow (counts : List Nat) (d : Nat) : Nat :=
  ∑ c ∈ (classes counts).filter (· < d), c * atLeast counts c

/-- The skip step stays in range, for every `start` up to the last hit. -/
def SkipsFit (counts : List Nat) : Prop :=
  ∀ d ∈ classes counts, weightBelow counts d < counts.sum → weight counts d < 2147483647

theorem le_of_int {x y : Int} (h : int x = some y) : x ≤ intMax ∧ y = x :=
  ⟨(checked_eq_some.mp h).1.2, (checked_eq_some.mp h).2.symm⟩

theorem int_of_le {x : Int} (hlo : 0 ≤ x) (hhi : x ≤ intMax) : int x = some x :=
  checked_of_le hlo hhi

/-! ## `search` -/

theorem storeCounts_sound {responses : List (β × Int)} {size n : Int} {sets : List (BackendSet β)}
    (h : storeCounts responses size = some (sets, n)) :
    sets = responses.map (fun r => ⟨r.1, r.2⟩) ∧ n = size + (responses.map Prod.snd).sum ∧
      ∀ r ∈ responses, r.2 ≤ intMax := by
  induction responses generalizing size sets n with
  | nil =>
    cases h
    refine ⟨rfl, by simp, ?_⟩
    intro r hr
    cases hr
  | cons r responses ih =>
    obtain ⟨b, c⟩ := r
    obtain ⟨count, hcount, h⟩ := Option.bind_eq_some_iff.mp h
    obtain ⟨size', hsize, h⟩ := Option.bind_eq_some_iff.mp h
    obtain ⟨stored, hstored, heq⟩ := Option.map_eq_some_iff.mp h
    obtain ⟨hle, rfl⟩ := le_of_int hcount
    obtain ⟨-, rfl⟩ := checked_eq_some.mp hsize
    obtain ⟨hsets, hn, hall⟩ := ih hstored
    cases heq
    refine ⟨by rw [hsets]; rfl, ?_, ?_⟩
    · rw [hn, List.map_cons, List.sum_cons]
      omega
    · intro r hr
      obtain rfl | hr := List.mem_cons.mp hr
      · exact hle
      · exact hall r hr

theorem storeCounts_of_le {responses : List (β × Int)} {size : Int} (hsize : 0 ≤ size)
    (hnonneg : ∀ r ∈ responses, 0 ≤ r.2)
    (hle : size + (responses.map Prod.snd).sum ≤ intMax) :
    storeCounts responses size =
      some (responses.map (fun r => ⟨r.1, r.2⟩), size + (responses.map Prod.snd).sum) := by
  induction responses generalizing size with
  | nil => simp [storeCounts]
  | cons r responses ih =>
    obtain ⟨b, c⟩ := r
    have hc : 0 ≤ c := hnonneg (b, c) List.mem_cons_self
    have hrest : ∀ r ∈ responses, 0 ≤ r.2 := fun r hr => hnonneg r (List.mem_cons_of_mem _ hr)
    have hsum : 0 ≤ (responses.map Prod.snd).sum := by
      refine List.sum_nonneg ?_
      intro x hx
      obtain ⟨r, hr, rfl⟩ := List.mem_map.mp hx
      exact hrest r hr
    simp only [List.map_cons, List.sum_cons] at hle ⊢
    have hsize' : checked odrIntMax (size + c) = some (size + c) := by
      refine checked_of_le (by omega) ?_
      unfold intMax at hle
      unfold odrIntMax
      omega
    rw [storeCounts, int_of_le hc (by omega), Option.bind_some, hsize', Option.bind_some,
      ih (by omega) hrest (by omega)]
    simp [Int.add_assoc]

/-- The hit counts that `search` goes through. -/
def Frontend.counts {ρ : Type*} (f : Frontend ρ) : List (BackendPtr × Int) :=
  f.backendList.filterMap fun b => ((f.response b).bind Gdu.resultCount).map fun c => (b, c)

/-- Counts that are stored are those of the result set, and their sum is announced. -/
theorem storeCounts_counts {ρ : Type*} {f : Frontend ρ} {sets : List (BackendSet BackendPtr)}
    {announced : Int} (hnonneg : ∀ r ∈ f.counts, 0 ≤ r.2)
    (h : storeCounts f.counts 0 = some (sets, announced)) (setname : String) :
    sets = (f.resultSet setname).backendSets ∧ announced = f.resultSetSize := by
  obtain ⟨rfl, rfl, hle⟩ := storeCounts_sound h
  unfold Frontend.counts at hnonneg hle ⊢
  constructor
  · rw [Frontend.resultSet, FrontendSet.ofResponses, List.map_filterMap]
    refine List.filterMap_congr ?_
    intro b hb
    cases hc : (f.response b).bind Gdu.resultCount with
    | none => rfl
    | some c =>
      have hmem : (b, c) ∈ f.backendList.filterMap fun b =>
          ((f.response b).bind Gdu.resultCount).map fun c => (b, c) :=
        List.mem_filterMap.mpr ⟨b, hb, by rw [hc]; rfl⟩
      have hlo := hnonneg _ hmem
      have hhi := hle _ hmem
      simp only [intMax] at hlo hhi
      rw [Option.map_some, Option.map_some, Option.map_some, Option.map_some,
        Util.toInt_eq (by omega) (by omega)]
  · rw [Frontend.resultSetSize, List.map_filterMap, Int.zero_add]
    congr 1
    refine List.filterMap_congr ?_
    intro b _
    cases (f.response b).bind Gdu.resultCount with
    | none => rfl
    | some c => rfl

/-! ## `serve_order` -/

theorem serveAtInt_of_le {sets : List (BackendSet β)} (h : Counted sets) {offset voffset : Int}
    (hv : 0 ≤ voffset) (hlast : voffset + totalHits sets ≤ intMax) :
    serveAtInt offset sets voffset = some (serveAt offset sets voffset) := by
  induction sets generalizing voffset with
  | nil => rfl
  | cons b sets ih =>
    have hb := h b List.mem_cons_self
    have hsets : Counted sets := fun b' hb' => h b' (List.mem_cons_of_mem b hb')
    have hrest := totalHits_eq hsets
    have htotal : totalHits (b :: sets) = b.count + totalHits sets := by
      simp [totalHits]
    rw [htotal] at hlast
    rw [serveAtInt, serveAt, int_of_le (by omega) (by omega), Option.bind_some]
    split
    · rename_i hin
      rw [int_of_le (by omega) (by omega), Option.bind_some, int_of_le (by omega) (by omega)]
      rfl
    · exact ih hsets (by omega) (by omega)

theorem serveOrderInt_of_le {sets : List (BackendSet β)} (h : Counted sets)
    {start number : Int} (hstart : 1 ≤ start) (htotal : totalHits sets ≤ intMax)
    (hlast : start + number - 1 ≤ intMax) :
    serveOrderInt sets start number = some
      ((List.range number.toNat).flatMap fun i : Nat => serveAt (start + i - 1) sets 0) := by
  rw [serveOrderInt, List.flatMap_def]
  refine congrArg (Option.map List.flatten) (mapM_of_forall ?_)
  intro i hi
  have hi' := List.mem_range.mp hi
  rw [int_of_le (by omega) (by omega), Option.bind_some, int_of_le (by omega) (by omega),
    Option.bind_some]
  exact serveAtInt_of_le h (Int.le_refl 0) (by omega)

/-- The second record of a window that starts at the last `int` has no index. -/
theorem serveOrderInt_eq_none (sets : List (BackendSet β)) :
    serveOrderInt sets intMax 2 = none := by
  have hnone : int (intMax + (1 : Nat)) = none := checked_eq_none (by unfold intMax; omega)
  have hmem : 1 ∈ List.range (2 : Int).toNat := List.mem_range.mpr (by decide)
  rw [serveOrderInt, mapM_eq_none hmem]
  · rfl
  · rw [hnone]
    rfl

/-! ## `round_robin` -/

/-- The sums of the skip step when the classes to `o` are passed: positions and `p`. -/
theorem sum_le_weight (counts : List Nat) (o : Nat) :
    ∑ c ∈ (classes counts).filter (· ≤ o), c ≤ weight counts o := by
  refine Finset.sum_le_sum ?_
  intro c hc
  obtain ⟨hmem, -⟩ := mem_classes.mp (Finset.mem_filter.mp hc).1
  have hpos : 0 < atLeast counts c := List.countP_pos_iff.mpr ⟨c, hmem, by simp⟩
  exact Nat.le_mul_of_pos_right c hpos

theorem weightBelow_next {counts : List Nat} {o d : Nat} (hlt : o < d)
    (hmin : ∀ c ∈ classes counts, o < c → d ≤ c) : weightBelow counts d = weight counts o := by
  unfold weightBelow weight
  congr 1
  ext c
  simp only [Finset.mem_filter, and_congr_right_iff]
  intro hc
  constructor
  · intro hcd
    by_contra hoc
    have hle := hmin c hc (by omega)
    omega
  · intro hco
    omega

theorem weight_le_weightBelow {counts : List Nat} {d d' : Nat} (hlt : d < d') :
    weight counts d ≤ weightBelow counts d' := by
  refine Finset.sum_le_sum_of_subset ?_
  intro c hc
  obtain ⟨hmem, hle⟩ := Finset.mem_filter.mp hc
  exact Finset.mem_filter.mpr ⟨hmem, by omega⟩

/-- The positions before the present range are passed at once. -/
theorem intoRange_isSome {start p noLeft : Int} {pos : List Int} (hp : 0 ≤ p) (hle : p ≤ start)
    (hstart : start ≤ intMax) (hleft : 0 ≤ noLeft) (hpos : ∀ x ∈ pos, 0 ≤ x ∧ x ≤ p) :
    ((int (start - p)).bind fun before =>
      (int (noLeft * before.tdiv noLeft)).bind fun skip => (int (p + skip)).bind fun p =>
        (pos.mapM fun x => int (x + before.tdiv noLeft)).map fun pos => (p, pos)).isSome = true := by
  have hbefore : 0 ≤ start - p := by omega
  have hmin : 0 ≤ (start - p).tdiv noLeft := Int.tdiv_nonneg hbefore hleft
  have hself : (start - p).tdiv noLeft ≤ start - p := Int.tdiv_le_self noLeft hbefore
  have hskip : noLeft * (start - p).tdiv noLeft ≤ start - p := Int.mul_tdiv_self_le hbefore
  have hnonneg : 0 ≤ noLeft * (start - p).tdiv noLeft := Int.mul_nonneg hleft hmin
  have hmoved : ∀ x ∈ pos, int (x + (start - p).tdiv noLeft) =
      some (x + (start - p).tdiv noLeft) := by
    intro x hx
    obtain ⟨hlo, hhi⟩ := hpos x hx
    exact int_of_le (by omega) (by omega)
  rw [int_of_le hbefore (by omega), Option.bind_some, int_of_le hnonneg (by omega),
    Option.bind_some, int_of_le (by omega) (by omega), Option.bind_some, mapM_of_forall hmoved]
  rfl
theorem skipAheadInt_isSome (sets : List (BackendSet β)) (start o : Nat)
    (h : weight (hits sets) o < start) (hstart : (start : Int) ≤ intMax)
    (hfit : ∀ d ∈ classes (hits sets), o < d → weightBelow (hits sets) d < start →
      weight (hits sets) d < 2147483647) :
    (skipAheadInt sets start (1 + weight (hits sets) o)
      (sets.map fun _ => 1 + ((∑ c ∈ (classes (hits sets)).filter (· ≤ o), c : Nat) : Int))
      o).isSome = true := by
  induction hn : sets.countP (fun b => (o : Int) < b.count) using Nat.strong_induction_on
    generalizing o with
  | _ n ih =>
    have hsum := sum_le_weight (hits sets) o
    rw [skipAheadInt]
    simp only
    by_cases h0 : (nextClass o sets).2 = 0
    · rw [dif_pos h0]
      rfl
    · obtain ⟨d, hd, hmin, hlt, hleast, hnoLeft⟩ := nextClass_hits h0
      have hnext := weight_next hd hlt hleast
      have hweight := hfit d hd hlt (by rw [weightBelow_next hlt hleast]; exact h)
      have hcast : (atLeast (hits sets) d : Int) * d =
          ((d * atLeast (hits sets) d : Nat) : Int) := by
        push_cast
        rw [Int.mul_comm]
      have hleft : atLeast (hits sets) d ≤ d * atLeast (hits sets) d :=
        Nat.le_mul_of_pos_left _ (by omega)
      unfold intMax at hstart
      rw [dif_neg h0, hmin, hnoLeft, int_of_le (by omega) (by unfold intMax; omega),
        Option.bind_some, hcast, int_of_le (by omega) (by unfold intMax; omega), Option.bind_some,
        int_of_le (by omega) (by unfold intMax; omega), Option.bind_some]
      split
      · -- into the present range
        refine intoRange_isSome (by omega) (by omega) (by unfold intMax; omega) (by omega) ?_
        intro x hx
        obtain ⟨b, -, rfl⟩ := List.mem_map.mp hx
        omega
      · rename_i hin
        have hlt' : weight (hits sets) d < start := by omega
        have hdec := countP_nextClass_lt h0
        rw [hmin] at hdec
        have hstep := ih _ (hn ▸ hdec) d hlt'
          (fun d' hd' hdd' => hfit d' hd' (by omega)) rfl
        have hnot : d ∉ (classes (hits sets)).filter (· ≤ o) := by
          simp only [Finset.mem_filter, not_and, not_le]
          omega
        rw [filter_le_next hd hlt hleast, Finset.sum_insert hnot] at hstep
        have hpos : (sets.map fun _ =>
            1 + ((∑ c ∈ (classes (hits sets)).filter (· ≤ o), c : Nat) : Int)).mapM
              (fun x => int (x + d)) = some (sets.map fun _ =>
                1 + ((d + ∑ c ∈ (classes (hits sets)).filter (· ≤ o), c : Nat) : Int)) := by
          rw [mapM_of_forall (g := fun x => x + (d : Int)), map_const_add]
          · congr 2
            funext _
            push_cast
            omega
          · intro x hx
            obtain ⟨b, -, rfl⟩ := List.mem_map.mp hx
            have hle : d ≤ d * atLeast (hits sets) d :=
              Nat.le_mul_of_pos_right d (List.countP_pos_iff.mpr
                ⟨d, (mem_classes.mp hd).1, by simp⟩)
            exact int_of_le (by omega) (by unfold intMax; omega)
        have hp : 1 + (weight (hits sets) o : Int) + ((d * atLeast (hits sets) d : Nat) : Int) =
            1 + (weight (hits sets) d : Int) := by
          rw [hnext]
          push_cast
          omega
        rw [hpos, Option.bind_some, hp]
        exact hstep

/-- Every sum that the skip step takes up to `start` is in range when something comes out. -/
theorem weight_lt_of_skipAheadInt (sets : List (BackendSet β)) (start o : Nat)
    {pos : List Int} {skipped : Int × List Int}
    (h : skipAheadInt sets start (1 + weight (hits sets) o) pos o = some skipped) {d : Nat}
    (hd : d ∈ classes (hits sets)) (hod : o < d) (hbelow : weightBelow (hits sets) d < start) :
    weight (hits sets) d < 2147483647 := by
  induction hn : sets.countP (fun b => (o : Int) < b.count) using Nat.strong_induction_on
    generalizing o pos with
  | _ n ih =>
    rw [skipAheadInt] at h
    simp only at h
    by_cases h0 : (nextClass o sets).2 = 0
    · have hnone : (hits sets).countP (fun c => o < c) = 0 := by
        have hleft := nextClass_noLeft o sets
        rw [countP_hits]
        omega
      rw [List.countP_eq_zero] at hnone
      exact absurd (decide_eq_true hod) (hnone d (mem_classes.mp hd).1)
    · obtain ⟨d0, hd0, hmin, hlt, hleast, hnoLeft⟩ := nextClass_hits h0
      have hnext := weight_next hd0 hlt hleast
      have hcast : (atLeast (hits sets) d0 : Int) * d0 =
          ((d0 * atLeast (hits sets) d0 : Nat) : Int) := by
        push_cast
        rw [Int.mul_comm]
      rw [dif_neg h0, hmin, hnoLeft] at h
      obtain ⟨_, -, h⟩ := Option.bind_eq_some_iff.mp h
      obtain ⟨skip, hskip, h⟩ := Option.bind_eq_some_iff.mp h
      obtain ⟨next, hp, h⟩ := Option.bind_eq_some_iff.mp h
      obtain ⟨-, rfl⟩ := le_of_int hskip
      obtain ⟨hle, rfl⟩ := le_of_int hp
      unfold intMax at hle
      rw [hcast] at hle h
      by_cases hsame : d = d0
      · subst hsame
        omega
      · have hgt : d0 < d := by
          have := hleast d hd hod
          omega
        have hbelow' : weight (hits sets) d0 ≤ weightBelow (hits sets) d :=
          weight_le_weightBelow hgt
        rw [if_neg (by omega)] at h
        obtain ⟨pos', -, h⟩ := Option.bind_eq_some_iff.mp h
        have hdec := countP_nextClass_lt h0
        rw [hmin] at hdec
        have hp' : 1 + (weight (hits sets) o : Int) + ((d0 * atLeast (hits sets) d0 : Nat) : Int) =
            1 + (weight (hits sets) d0 : Int) := by
          rw [hnext]
          push_cast
          omega
        rw [hp'] at h
        exact ih _ (hn ▸ hdec) d0 h hgt rfl

/-- `p` is not ahead of the jobs, and the next positions have room for one more. -/
structure Ready (start : Int) (l : List (BackendSet β × Int)) (p fetched : Int) : Prop where
  counts : ∀ e ∈ l, 0 ≤ e.2 ∧ e.1.count < intMax
  p_le : p ≤ start + fetched
  p_nonneg : 0 ≤ p
  fetched_nonneg : 0 ≤ fetched

theorem Ready.tail {start : Int} {e : BackendSet β × Int} {l : List (BackendSet β × Int)}
    {p fetched : Int} (h : Ready start (e :: l) p fetched) : Ready start l p fetched where
  counts e' he' := h.counts e' (List.mem_cons_of_mem e he')
  p_le := h.p_le
  p_nonneg := h.p_nonneg
  fetched_nonneg := h.fetched_nonneg

theorem mergePassInt_ready {start number : Int} (hlast : start + number ≤ intMax)
    (hstart : 0 ≤ start) {l : List (BackendSet β × Int)} {p fetched : Int}
    (h : Ready start l p fetched) (more : Bool) (jobs : List (PresentJob β)) :
    ∃ m, mergePassInt start number l p fetched more jobs = some m ∧
      Ready start m.at_ m.p m.fetched := by
  induction l generalizing p fetched more jobs with
  | nil => exact ⟨_, rfl, h⟩
  | cons e rest ih =>
    obtain ⟨b, pos⟩ := e
    obtain ⟨hpos, hcount⟩ := h.counts (b, pos) List.mem_cons_self
    simp only at hpos hcount
    have hp := h.p_le
    have hp0 := h.p_nonneg
    have hf0 := h.fetched_nonneg
    have hconsed : ∀ pos' : Int, 0 ≤ pos' → ∀ m : Merge β, Ready start m.at_ m.p m.fetched →
        Ready start ((b, pos') :: m.at_) m.p m.fetched := by
      intro pos' hpos' m hm
      refine ⟨?_, hm.p_le, hm.p_nonneg, hm.fetched_nonneg⟩
      intro e he
      obtain rfl | he := List.mem_cons.mp he
      · exact ⟨hpos', hcount⟩
      · exact hm.counts e he
    rw [mergePassInt]
    by_cases hdone : fetched ≥ number
    · rw [if_pos hdone]
      exact ⟨_, rfl, h⟩
    rw [if_neg hdone]
    by_cases hle : pos ≤ b.count
    · rw [if_pos hle, int_of_le (by omega) (by omega), Option.bind_some,
        int_of_le (by omega) (by omega), Option.bind_some]
      by_cases hin : p ≥ start
      · have hnext : Ready start rest (p + 1) (fetched + 1) :=
          ⟨h.tail.counts, by omega, by omega, by omega⟩
        obtain ⟨m, hm, hready⟩ := ih hnext true (jobs ++ [.make b.backend pos])
        rw [if_pos hin, int_of_le (by omega) (by omega), Option.bind_some, hm]
        exact ⟨_, rfl, hconsed _ (by omega) m hready⟩
      · have hnext : Ready start rest (p + 1) fetched :=
          ⟨h.tail.counts, by omega, by omega, by omega⟩
        obtain ⟨m, hm, hready⟩ := ih hnext true jobs
        rw [if_neg hin, hm]
        exact ⟨_, rfl, hconsed _ (by omega) m hready⟩
    · obtain ⟨m, hm, hready⟩ := ih h.tail more jobs
      rw [if_neg hle, hm]
      exact ⟨_, rfl, hconsed _ hpos m hready⟩

theorem mergeLoopInt_isSome {start number : Int} (hlast : start + number ≤ intMax)
    (hstart : 0 ≤ start) {l : List (BackendSet β × Int)} {p fetched : Int}
    (h : Ready start l p fetched) (jobs : List (PresentJob β)) :
    (mergeLoopInt start number l p fetched jobs).isSome = true := by
  induction hn : remaining l using Nat.strong_induction_on generalizing l p fetched jobs with
  | _ n ih =>
    obtain ⟨m, hm, hready⟩ := mergePassInt_ready hlast hstart h false jobs
    have hpass := mergePassInt_sound hm
    have hlt := remaining_mergePass_lt start number l p fetched jobs
    rw [hpass] at hlt
    rw [mergeLoopInt]
    split
    · rename_i hnone
      rw [hm] at hnone
      cases hnone
    · rename_i m' hm'
      rw [hm] at hm'
      cases hm'
      split
      · rename_i hmore
        exact ih _ (hn ▸ hlt hmore) hready m.jobs rfl
      · rfl

/-- A job at the last `int` is not taken, as the next position has no number. -/
theorem mergePassInt_jobs {number : Int} {l : List (BackendSet β × Int)} {p fetched : Int}
    {more : Bool} {jobs : List (PresentJob β)} {m : Merge β}
    (h : mergePassInt intMax number l p fetched more jobs = some m) : m.jobs = jobs := by
  induction l generalizing p fetched more jobs m with
  | nil =>
    cases h
    rfl
  | cons e rest ih =>
    obtain ⟨b, pos⟩ := e
    rw [mergePassInt] at h
    split at h
    · cases h
      rfl
    · split at h
      · obtain ⟨pos', -, h⟩ := Option.bind_eq_some_iff.mp h
        obtain ⟨p', hp, h⟩ := Option.bind_eq_some_iff.mp h
        obtain ⟨m', hm, rfl⟩ := Option.map_eq_some_iff.mp h
        have hle := (le_of_int hp).1
        rw [if_neg (by omega)] at hm
        exact (ih hm : m'.jobs = jobs)
      · obtain ⟨m', hm, rfl⟩ := Option.map_eq_some_iff.mp h
        exact (ih hm : m'.jobs = jobs)

theorem mergeLoopInt_jobs {number : Int} {l : List (BackendSet β × Int)} {p fetched : Int}
    {jobs jobs' : List (PresentJob β)}
    (h : mergeLoopInt intMax number l p fetched jobs = some jobs') : jobs' = jobs := by
  induction hn : remaining l using Nat.strong_induction_on generalizing l p fetched jobs with
  | _ n ih =>
    rw [mergeLoopInt] at h
    split at h
    · cases h
    · rename_i m hm
      have hjobs := mergePassInt_jobs hm
      have hlt := remaining_mergePass_lt intMax number l p fetched jobs
      rw [mergePassInt_sound hm] at hlt
      split at h
      · rename_i hmore
        rw [← hjobs]
        exact ih _ (hn ▸ hlt hmore) h rfl
      · cases h
        exact hjobs

/-! ## All windows -/

/-- A pair of a backend and a position that the windows of a client come to. -/
def Enumerated (mergeType : MergeType) (sets : List (BackendSet BackendPtr)) (announced : Int)
    (e : BackendPtr × Int) : Prop :=
  ∃ start number jobs, Window announced start number ∧
    jobsInt mergeType sets start number = some jobs ∧ ∃ j ∈ jobs, (j.backend, j.pos) = e

/-- The search stores what it announces, as many pairs are enumerated, and no value is out of
range. -/
def CountsFit (responses : List (BackendPtr × Int)) : Prop :=
  ∃ sets announced, storeCounts responses 0 = some (sets, announced) ∧
    (∀ mergeType, ∃ l : List (BackendPtr × Int), l.Nodup ∧ (l.length : Int) = announced ∧
      ∀ e, e ∈ l ↔ Enumerated mergeType sets announced e) ∧
    ∀ mergeType start number, Window announced start number →
      (jobsInt mergeType sets start number).isSome = true

theorem roundRobinInt_isSome {sets : List (BackendSet β)} (hcounted : Counted sets)
    {start number : Int} (h : Window (totalHits sets) start number)
    (htotal : totalHits sets < intMax) (hfit : SkipsFit (hits sets)) :
    (roundRobinInt sets start number).isSome = true := by
  obtain ⟨hone, hle, hnonneg, hlast⟩ := h
  have hsum := totalHits_eq hcounted
  have hnone : (classes (hits sets)).filter (· ≤ 0) = ∅ := by
    ext c
    simp only [Finset.mem_filter, mem_classes, Finset.notMem_empty, iff_false]
    omega
  have hcast : ((start.toNat : Nat) : Int) = start := by omega
  have hskip := skipAheadInt_isSome sets start.toNat 0 (by rw [weight_zero]; omega) (by omega)
    (fun d hd _ hbelow => hfit d hd (by omega))
  rw [weight_zero, hnone, hcast] at hskip
  simp only [Finset.sum_empty, Nat.cast_zero, Int.add_zero] at hskip
  obtain ⟨skipped, hskipped⟩ := Option.isSome_iff_exists.mp hskip
  have hsound := skipAheadInt_sound hskipped
  have heq := skipAhead_eq sets start.toNat 0 (by rw [weight_zero]; omega)
  rw [weight_zero, hnone, hcast] at heq
  simp only [Finset.sum_empty, Nat.cast_zero, Int.add_zero] at heq
  rw [heq] at hsound
  rw [roundRobinInt, hskipped, Option.bind_some, hsound]
  refine mergeLoopInt_isSome (by omega) (by omega) ⟨?_, ?_, by simp only; omega, Int.le_refl 0⟩ []
  · intro e he
    simp only [zip_map_const] at he
    obtain ⟨b, hb, rfl⟩ := List.mem_map.mp he
    refine ⟨by simp only; omega, ?_⟩
    have hmem : b.count.toNat ≤ (hits sets).sum :=
      List.le_sum_of_mem (List.mem_map.mpr ⟨b, hb, rfl⟩)
    simp only
    omega
  · have hpos : 1 ≤ start.toNat := by omega
    have hrest := passedWeight_add_rest (hits sets) hpos
    simp only
    omega

theorem jobsInt_of_window {fset : FrontendSet BackendPtr} (hcounted : Counted fset.backendSets)
    (rep : Rep) {start number : Int} (h : Window (totalHits fset.backendSets) start number)
    (htotal : totalHits fset.backendSets < intMax) (hfit : SkipsFit (hits fset.backendSets)) :
    jobsInt rep.mergeType fset.backendSets start number = some (fset.jobs rep start number) := by
  have hsome : (jobsInt rep.mergeType fset.backendSets start number).isSome = true := by
    have hone := h.one_le
    have hle := h.le_announced
    have hnonneg := h.nonneg
    have hlast := h.last_le
    rw [jobsInt, int_of_le (by omega) (by omega), Option.bind_some, int_of_le hnonneg (by omega),
      Option.bind_some]
    cases rep.mergeType with
    | roundRobin => exact roundRobinInt_isSome hcounted h htotal hfit
    | serveOrder =>
      rw [orderInt, serveOrderInt_of_le hcounted hone htotal.le (by omega)]
      rfl
  obtain ⟨jobs, hjobs⟩ := Option.isSome_iff_exists.mp hsome
  rw [hjobs, jobsInt_sound hjobs]

def repOf (mergeType : MergeType) : Rep where
  routePatterns := []
  hideUnavailable := false
  hideErrors := false
  mergeType
  matchGlob _ _ := false
  hostArgs _ := none

theorem length_mergedOrder (rep : Rep) (fset : FrontendSet BackendPtr) :
    (mergedOrder rep fset).length = (hits fset.backendSets).sum := by
  unfold mergedOrder
  cases rep.mergeType with
  | roundRobin => exact (length_interleave _).trans (sum_queues _)
  | serveOrder => exact length_concatenation _

/-- From the first record on, nothing is skipped. -/
theorem skipExact_one (counts : List Nat) (number : Nat) : SkipExact counts 1 number := by
  have hnone : passed counts 1 = ∅ := by
    ext d
    simp only [passed, Finset.mem_filter, Finset.notMem_empty, iff_false, not_and]
    intro hd hlt
    have hsum := sum_le_weight counts d
    have hle : d ≤ ∑ c ∈ (classes counts).filter (· ≤ d), c :=
      Finset.single_le_sum (f := fun c => c) (fun _ _ => Nat.zero_le _)
        (Finset.mem_filter.mpr ⟨hd, Nat.le_refl d⟩)
    have hpos := (mem_classes.mp hd).2
    omega
  refine .inr (.inl ⟨?_, ?_⟩)
  · intro c hc
    rw [hnone] at hc
    cases hc
  · intro d hd
    rw [hnone] at hd
    cases hd

/-- All windows together enumerate the merged order. -/
theorem enumerated_iff {fset : FrontendSet BackendPtr} (hcounted : Counted fset.backendSets)
    (rep : Rep) (htotal : totalHits fset.backendSets < intMax)
    (hfit : SkipsFit (hits fset.backendSets)) (e : BackendPtr × Int) :
    e ∈ (mergedOrder rep fset).map (fun e => (e.1, (e.2 : Int))) ↔
      Enumerated rep.mergeType fset.backendSets (totalHits fset.backendSets) e := by
  have hsum := totalHits_eq hcounted
  constructor
  · intro he
    obtain ⟨e, hmem, rfl⟩ := List.mem_map.mp he
    have hlength := length_mergedOrder rep fset
    have hpos := List.length_pos_of_mem hmem
    have hwindow : Window (totalHits fset.backendSets) 1 (totalHits fset.backendSets) :=
      ⟨Int.le_refl 1, by omega, by omega, by omega⟩
    have hjobs := jobsInt_of_window hcounted rep hwindow htotal hfit
    have hskip : SkipsToStart rep fset 1 (totalHits fset.backendSets) :=
      fun _ => skipExact_one _ _
    have hmerged := jobs_merged
      ⟨hcounted, hwindow.one_le, hwindow.nonneg, hwindow.last_le⟩ hskip
    refine ⟨1, totalHits fset.backendSets, _, hwindow, hjobs, job e, ?_, rfl⟩
    rw [hmerged, Int.sub_self, Int.toNat_zero, List.drop_zero,
      List.take_of_length_le (by omega)]
    exact List.mem_map_of_mem hmem
  · rintro ⟨start, number, jobs, hwindow, hjobs, j, hj, rfl⟩
    rw [jobsInt_sound hjobs] at hj
    obtain ⟨hpos, b, hb, hbackend, hle⟩ := pos_of_mem_jobs (.inr hwindow.one_le) hj
    have hmem : (j.backend, j.pos.toNat) ∈ mergedOrder rep fset :=
      mem_mergedOrder.mpr ⟨b, hb, hbackend, by omega, by omega⟩
    refine List.mem_map.mpr ⟨_, hmem, ?_⟩
    simp only [Prod.mk.injEq, true_and]
    omega

/-- The last announced record has no window when the announced count is the last `int`. -/
theorem roundRobinInt_eq_none {fset : FrontendSet BackendPtr} (hcounted : Counted fset.backendSets)
    (htotal : totalHits fset.backendSets = intMax) :
    roundRobinInt fset.backendSets intMax 1 = none := by
  cases h : roundRobinInt fset.backendSets intMax 1 with
  | none => rfl
  | some jobs =>
    have hsound := roundRobinInt_sound h
    have hrange : InRange fset intMax 1 := ⟨hcounted, by unfold intMax; omega, by omega, by omega⟩
    have hlength := length_jobs (repOf .roundRobin) hrange
    have heq : fset.jobs (repOf .roundRobin) intMax 1 = fset.roundRobin intMax 1 := rfl
    obtain ⟨skipped, -, hloop⟩ := Option.bind_eq_some_iff.mp h
    rw [heq, ← hsound, mergeLoopInt_jobs hloop] at hlength
    cases hlength

section Responses

variable {responses : List (BackendPtr × Int)}

theorem map_backend_stored (hdistinct : (responses.map Prod.fst).Nodup) :
    ((responses.map fun r => (⟨r.1, r.2⟩ : BackendSet BackendPtr)).map
      BackendSet.backend).Nodup := by
  simpa [Function.comp_def] using hdistinct

/-- The set that is stored when every count is in range. -/
def storedSet (responses : List (BackendPtr × Int)) (hdistinct : (responses.map Prod.fst).Nodup) :
    FrontendSet BackendPtr where
  setname := ""
  backendSets := responses.map fun r => ⟨r.1, r.2⟩
  distinct := map_backend_stored hdistinct

variable (hdistinct : (responses.map Prod.fst).Nodup)

theorem counted_storedSet (hcounts : ∀ r ∈ responses, 0 ≤ r.2) :
    Counted (storedSet responses hdistinct).backendSets := by
  intro b hb
  obtain ⟨r, hr, rfl⟩ := List.mem_map.mp hb
  exact hcounts r hr

theorem totalHits_storedSet :
    totalHits (storedSet responses hdistinct).backendSets = (responses.map Prod.snd).sum := by
  simp [totalHits, storedSet, Function.comp_def]

theorem hits_storedSet :
    hits (storedSet responses hdistinct).backendSets = responses.map fun r => r.2.toNat := by
  simp [hits, storedSet]

theorem windows_of_fits (h : CountsFit responses) (mergeType : MergeType) {start number : Int}
    (hwindow : Window (responses.map Prod.snd).sum start number) :
    ∃ jobs, orderInt mergeType (storedSet responses hdistinct).backendSets start number =
      some jobs := by
  obtain ⟨sets, announced, hstored, -, hwindows⟩ := h
  obtain ⟨rfl, hannounced, -⟩ := storeCounts_sound hstored
  rw [Int.zero_add] at hannounced
  subst hannounced
  obtain ⟨jobs, hjobs⟩ := Option.isSome_iff_exists.mp (hwindows mergeType start number hwindow)
  obtain ⟨start', hstart, hjobs⟩ := Option.bind_eq_some_iff.mp hjobs
  obtain ⟨number', hnumber, horder⟩ := Option.bind_eq_some_iff.mp hjobs
  obtain ⟨-, rfl⟩ := le_of_int hstart
  obtain ⟨-, rfl⟩ := le_of_int hnumber
  exact ⟨jobs, horder⟩

theorem sum_lt_of_fits (hdistinct : (responses.map Prod.fst).Nodup)
    (hcounts : ∀ r ∈ responses, 0 ≤ r.2) (h : CountsFit responses) :
    (responses.map Prod.snd).sum < intMax := by
  have htotal := totalHits_storedSet hdistinct
  by_contra hnot
  by_cases hmax : (responses.map Prod.snd).sum = intMax
  · obtain ⟨jobs, hjobs⟩ := windows_of_fits hdistinct h .roundRobin
      (⟨by unfold intMax; omega, by omega, by omega, by omega⟩ :
        Window (responses.map Prod.snd).sum intMax 1)
    rw [orderInt, roundRobinInt_eq_none (counted_storedSet hdistinct hcounts)
      (htotal.trans hmax)] at hjobs
    cases hjobs
  · obtain ⟨jobs, hjobs⟩ := windows_of_fits hdistinct h .serveOrder
      (⟨by unfold intMax; omega, by omega, by omega, by omega⟩ :
        Window (responses.map Prod.snd).sum intMax 2)
    rw [orderInt, serveOrderInt_eq_none] at hjobs
    cases hjobs

theorem skipsFit_of_fits (hdistinct : (responses.map Prod.fst).Nodup)
    (hcounts : ∀ r ∈ responses, 0 ≤ r.2) (h : CountsFit responses) :
    SkipsFit (responses.map fun r => r.2.toNat) := by
  have hsum := totalHits_eq (counted_storedSet hdistinct hcounts)
  rw [← hits_storedSet hdistinct]
  intro d hd hbelow
  have hwindow : Window (responses.map Prod.snd).sum
      (totalHits (storedSet responses hdistinct).backendSets) 0 := by
    rw [← totalHits_storedSet hdistinct]
    exact ⟨by omega, Int.le_refl _, Int.le_refl 0, by omega⟩
  obtain ⟨jobs, hjobs⟩ := windows_of_fits hdistinct h .roundRobin hwindow
  obtain ⟨skipped, hskipped, -⟩ := Option.bind_eq_some_iff.mp hjobs
  rw [hsum] at hskipped
  have hstart : skipAheadInt (storedSet responses hdistinct).backendSets
      (((hits (storedSet responses hdistinct).backendSets).sum : Nat) : Int)
      (1 + ((weight (hits (storedSet responses hdistinct).backendSets) 0 : Nat) : Int))
      ((storedSet responses hdistinct).backendSets.map fun _ => 1) ((0 : Nat) : Int) =
        some skipped := by
    rw [weight_zero]
    exact hskipped
  exact weight_lt_of_skipAheadInt _ _ 0 hstart hd (mem_classes.mp hd).2 hbelow

theorem fits_of_lt (hdistinct : (responses.map Prod.fst).Nodup)
    (hcounts : ∀ r ∈ responses, 0 ≤ r.2)
    (hrange : (responses.map Prod.snd).sum < intMax)
    (hfit : SkipsFit (responses.map fun r => r.2.toNat)) : CountsFit responses := by
  have hcounted := counted_storedSet hdistinct hcounts
  have hstored := storeCounts_of_le (Int.le_refl 0) hcounts
    (by omega : 0 + (responses.map Prod.snd).sum ≤ intMax)
  rw [Int.zero_add, ← totalHits_storedSet hdistinct] at hstored
  rw [← totalHits_storedSet hdistinct] at hrange
  rw [← hits_storedSet hdistinct] at hfit
  refine ⟨_, _, hstored, ?_, ?_⟩
  · intro mergeType
    refine ⟨(mergedOrder (repOf mergeType) (storedSet responses hdistinct)).map
      fun e => (e.1, (e.2 : Int)), ?_, ?_,
      enumerated_iff hcounted (repOf mergeType) hrange hfit⟩
    · refine (nodup_mergedOrder _ _).map ?_
      rintro ⟨b, pos⟩ ⟨b', pos'⟩ heq
      simp only [Prod.mk.injEq, Int.ofNat_inj] at heq
      rw [heq.1, heq.2]
    · rw [List.length_map, length_mergedOrder, totalHits_eq hcounted]
  · intro mergeType start number hwindow
    have hjobs := jobsInt_of_window hcounted (repOf mergeType) hwindow hrange hfit
    exact Option.isSome_iff_exists.mpr ⟨_, hjobs⟩

end Responses

/-- For all lists of hit counts: they fit if and only if the announced count is below the last
`int` and the skip step stays in range. -/
theorem counts_fit_iff (responses : List (BackendPtr × Int))
    (hdistinct : (responses.map Prod.fst).Nodup)
    (hcounts : ∀ r ∈ responses, 0 ≤ r.2 ∧ r.2 ≤ odrIntMax) :
    CountsFit responses ↔ (responses.map Prod.snd).sum < intMax ∧
      SkipsFit (responses.map fun r => r.2.toNat) := by
  have hnonneg : ∀ r ∈ responses, 0 ≤ r.2 := fun r hr => (hcounts r hr).1
  constructor
  · intro h
    exact ⟨sum_lt_of_fits hdistinct hnonneg h, skipsFit_of_fits hdistinct hnonneg h⟩
  · rintro ⟨hrange, hfit⟩
    exact fits_of_lt hdistinct hnonneg hrange hfit

instance (counts : List Nat) : Decidable (SkipsFit counts) :=
  inferInstanceAs (Decidable (∀ d ∈ classes counts, weightBelow counts d < counts.sum →
    weight counts d < 2147483647))

theorem counts_fit_iff_eight : CountsFit [(0, 3), (1, 5)] :=
  (counts_fit_iff [(0, 3), (1, 5)] (by decide) (by unfold odrIntMax; simp)).mpr
    ⟨by decide, by decide⟩

/-- A count that is no `int`, and two with a sum that is one but is not reached by the skip step. -/
theorem counts_do_not_fit :
    ¬ CountsFit [(0, 2147483648)] ∧ ¬ CountsFit [(0, 1000000000), (1, 1000000001)] := by
  constructor
  · rintro ⟨sets, announced, hstored, -⟩
    cases hstored
  · intro h
    have hfit := skipsFit_of_fits (by decide) (by simp) h
    revert hfit
    decide +kernel

end Multi
end Metaproxy
