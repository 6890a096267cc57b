import Metaproxy.Multi.Frontend
import Metaproxy.Multi.Merge

/-!
# Multi.Jobs

The jobs of both merge orders, and the windows that `Frontend::present` asks the backends for.

* `roundRobin_below` — what `round_robin` does with a start below 1: the skip step moves all
  positions back.
* `ascending_jobs` — the jobs of one backend are in ascending positions, whatever the hit counts.
* `window_eq` — the least and the greatest position as the code finds them: a first position of
  -1 is taken for none.
* `plan_jobs`, `plan_asks` — the loop over the sets.
-/

namespace Metaproxy
namespace Multi

open Lib

variable {β : Type*}

/-! ## A start below 1 -/

/-- All positions moved by `m`. -/
def queuesFrom (m : Int) (sets : List (BackendSet β)) : List (β × Nat) :=
  sets.map fun b => (b.backend, (b.count - m).toNat)

def jobFrom (m : Int) (e : β × Nat) : PresentJob β := .make e.1 (e.2 + m)

theorem queuesFrom_zero (sets : List (BackendSet β)) : queuesFrom 0 sets = queues sets := by
  simp [queuesFrom, queues]

theorem jobFrom_zero : (jobFrom 0 : β × Nat → PresentJob β) = job := by
  funext e
  simp [jobFrom, job]

theorem map_fst_queuesFrom (m : Int) (sets : List (BackendSet β)) :
    (queuesFrom m sets).map Prod.fst = sets.map BackendSet.backend := by
  simp [queuesFrom, Function.comp_def]

def shift (m : Int) (e : BackendSet β × Int) : BackendSet β × Int :=
  (⟨e.1.backend, e.1.count - m⟩, e.2 - m)

def shiftJob (m : Int) (j : PresentJob β) : PresentJob β := { j with pos := j.pos - m }

theorem mergePass_shift (m start number : Int) (l : List (BackendSet β × Int)) (p fetched : Int)
    (more : Bool) (jobs : List (PresentJob β)) :
    mergePass start number (l.map (shift m)) p fetched more (jobs.map (shiftJob m)) =
      { mergePass start number l p fetched more jobs with
        at_ := (mergePass start number l p fetched more jobs).at_.map (shift m)
        jobs := (mergePass start number l p fetched more jobs).jobs.map (shiftJob m) } := by
  induction l generalizing p fetched more jobs with
  | nil => rfl
  | cons e rest ih =>
    obtain ⟨b, pos⟩ := e
    have hjob : jobs.map (shiftJob m) ++ [PresentJob.make b.backend (pos - m)] =
        (jobs ++ [PresentJob.make b.backend pos]).map (shiftJob m) := by
      simp [shiftJob, PresentJob.make]
    have hle : pos - m ≤ b.count - m ↔ pos ≤ b.count := by omega
    have hpos : pos - m + 1 = pos + 1 - m := by omega
    rw [List.map_cons, shift, mergePass, mergePass]
    simp only [hle, hjob, ih, hpos]
    split_ifs <;> rfl

theorem mergeLoop_shift (m start number : Int) (l : List (BackendSet β × Int)) (p fetched : Int)
    (jobs : List (PresentJob β)) :
    mergeLoop start number (l.map (shift m)) p fetched (jobs.map (shiftJob m)) =
      (mergeLoop start number l p fetched jobs).map (shiftJob m) := by
  induction hn : remaining l using Nat.strong_induction_on generalizing l p fetched jobs with
  | _ n ih =>
    have hlt := remaining_mergePass_lt start number l p fetched jobs
    rw [mergeLoop.eq_1 start number (l.map (shift m)), mergeLoop.eq_1 start number l,
      mergePass_shift]
    by_cases hm : (mergePass start number l p fetched false jobs).more = true
    · simp only [hm, dif_pos]
      exact ih _ (hn ▸ hlt hm) _ _ _ _ rfl
    · simp only [hm, dif_neg, Bool.false_eq_true, not_false_eq_true]

/-- How many sets have hits. -/
def withHits (sets : List (BackendSet β)) : Nat := sets.countP fun b => 0 < b.count

/-- The rounds that the skip step takes for a start below 1; they are negative, or none. -/
def roundsBelow (sets : List (BackendSet β)) (start : Int) : Int :=
  (start - 1).tdiv (withHits sets)

theorem roundsBelow_eq (sets : List (BackendSet β)) {start : Int} (h : start < 1) :
    roundsBelow sets start = -((1 - start) / withHits sets) := by
  have hneg : start - 1 = -(1 - start) := by omega
  rw [roundsBelow, hneg, Int.neg_tdiv, Int.tdiv_eq_ediv_of_nonneg (by omega)]

/-- They do not go back beyond `start`. -/
theorem mul_roundsBelow (sets : List (BackendSet β)) {start : Int} (h : start < 1) :
    start - 1 ≤ withHits sets * roundsBelow sets start := by
  rw [roundsBelow_eq sets h, Int.mul_neg]
  rcases Nat.eq_zero_or_pos (withHits sets) with h0 | hpos
  · rw [h0]
    simp only [Nat.cast_zero, Int.zero_mul]
    omega
  · have := Int.mul_ediv_self_le (x := 1 - start) (k := withHits sets) (by omega)
    omega

theorem skipAhead_below (sets : List (BackendSet β)) {start : Int} (h : start < 1) :
    skipAhead sets start 1 (sets.map fun _ => 1) 0 =
      (1 + withHits sets * roundsBelow sets start,
        sets.map fun _ => 1 + roundsBelow sets start) := by
  have hleft : (nextClass 0 sets).2 = withHits sets := nextClass_noLeft 0 sets
  rw [skipAhead]
  simp only
  by_cases h0 : (nextClass 0 sets).2 = 0
  · rw [dif_pos h0, roundsBelow, ← hleft, h0]
    simp
  · obtain ⟨-, hmin, -⟩ := nextClass_min h0
    have hskip : 1 + (nextClass 0 sets).2 * (nextClass 0 sets).1 > start := by
      have : 0 ≤ (nextClass 0 sets).2 * (nextClass 0 sets).1 := by
        rw [hleft]
        exact Int.mul_nonneg (by omega) (by omega)
      omega
    rw [dif_neg h0, if_pos hskip, hleft, map_const_add, roundsBelow]

/-- From the rounds taken back on, everything is served: the first position is the first record
before that of the client. -/
theorem roundRobin_below (fset : FrontendSet β) {start : Int} (h : start < 1) (number : Int) :
    fset.roundRobin start number =
      ((interleave (queuesFrom (roundsBelow fset.backendSets start) fset.backendSets)).take
        number.toNat).map (jobFrom (roundsBelow fset.backendSets start)) := by
  set m := roundsBelow fset.backendSets start with hm
  have hp : (start - (1 + withHits fset.backendSets * m)).toNat = 0 := by
    have hle := mul_roundsBelow fset.backendSets h
    rw [← hm] at hle
    omega
  have hat : At 0 ((fset.backendSets.map fun b => (b, 1 + m)).map (shift m)) := by
    intro e he
    simp only [List.map_map, List.mem_map] at he
    obtain ⟨b, -, rfl⟩ := he
    exact .inl (by simp [shift])
  have hfst : queues (((fset.backendSets.map fun b => (b, 1 + m)).map (shift m)).map Prod.fst) =
      queuesFrom m fset.backendSets := by
    simp [queues, queuesFrom, shift, Function.comp_def]
  have hloop := mergeLoop_eq start number hat (1 + withHits fset.backendSets * m) 0 []
  have hshift := mergeLoop_shift m start number (fset.backendSets.map fun b => (b, 1 + m))
    (1 + withHits fset.backendSets * m) 0 []
  rw [FrontendSet.roundRobin]
  simp only [skipAhead_below fset.backendSets h, zip_map_const, ← hm]
  have hback : ∀ jobs : List (PresentJob β),
      (jobs.map (shiftJob m)).map (shiftJob (-m)) = jobs := by
    intro jobs
    rw [List.map_map]
    refine List.map_id'' (fun j => ?_) jobs
    simp [shiftJob]
  have hjob : shiftJob (-m) ∘ job = (jobFrom m : β × Nat → PresentJob β) := by
    funext e
    simp [shiftJob, job, jobFrom, PresentJob.make]
  rw [← hback (mergeLoop _ _ _ _ _ _), ← hshift, List.map_nil, hloop, hfst, hp, Int.sub_zero,
    List.drop_zero, List.nil_append, List.map_map, hjob]
  rfl

/-! ## Ascending positions -/

/-- A later job of a backend is at a later position. -/
def Ascending (jobs : List (PresentJob β)) : Prop :=
  jobs.Pairwise fun j k => j.backend = k.backend → j.pos < k.pos

theorem ascending_map_jobFrom (m : Int) {l : List (β × Nat)}
    (h : l.Pairwise fun e e' => e.1 = e'.1 → e.2 < e'.2) : Ascending (l.map (jobFrom m)) := by
  rw [Ascending, List.pairwise_map]
  refine h.imp fun {e e'} hlt heq => ?_
  have := hlt heq
  simp only [jobFrom, PresentJob.make]
  omega

/-- The jobs are a window of a plain interleaving, whatever the start is. -/
theorem roundRobin_window (fset : FrontendSet β) (start number : Int) :
    ∃ (m : Int) (first : Nat), fset.roundRobin start number =
      (((interleave (queuesFrom m fset.backendSets)).drop first).take number.toNat).map
        (jobFrom m) := by
  by_cases h : start < 1
  · exact ⟨_, 0, roundRobin_below fset h number⟩
  · have hcast : ((start.toNat : Nat) : Int) = start := by omega
    have hrr := roundRobin_eq fset start.toNat (by omega) number
    rw [hcast] at hrr
    exact ⟨0, _, by rw [hrr, queuesFrom_zero, jobFrom_zero]⟩

theorem ascending_roundRobin (fset : FrontendSet β) (start number : Int) :
    Ascending (fset.roundRobin start number) := by
  obtain ⟨m, first, hrr⟩ := roundRobin_window fset start number
  have hnodup : ((queuesFrom m fset.backendSets).map Prod.fst).Nodup := by
    rw [map_fst_queuesFrom]
    exact fset.distinct
  rw [hrr]
  refine ascending_map_jobFrom m ((pairwise_interleave hnodup).sublist ?_)
  exact (List.take_sublist _ _).trans (List.drop_sublist _ _)

/-- The offset at which the records of a backend start. -/
theorem serveAt_eq {offset voffset : Int} {sets : List (BackendSet β)} {j : PresentJob β}
    (h : j ∈ serveAt offset sets voffset) : ∃ before b after, sets = before ++ b :: after ∧
      serveAt offset sets voffset = [j] ∧ j.backend = b.backend ∧ j.start = 0 ∧
      j.pos = offset - (voffset + (before.map BackendSet.count).sum) + 1 ∧
      1 ≤ j.pos ∧ j.pos ≤ b.count := by
  induction sets generalizing voffset with
  | nil => cases h
  | cons b sets ih =>
    rw [serveAt] at h ⊢
    by_cases hin : offset ≥ voffset ∧ offset < voffset + b.count
    · rw [if_pos hin] at h ⊢
      obtain rfl := List.mem_singleton.mp h
      refine ⟨[], b, sets, rfl, rfl, rfl, rfl, by simp [PresentJob.make], ?_, ?_⟩
      · simp only [PresentJob.make]
        omega
      · simp only [PresentJob.make]
        omega
    · rw [if_neg hin] at h ⊢
      obtain ⟨before, b', after, rfl, hserve, hb, hstart, hpos, hrange⟩ := ih h
      refine ⟨b :: before, b', after, rfl, hserve, hb, hstart, ?_, hrange⟩
      rw [hpos, List.map_cons, List.sum_cons]
      omega

/-- A key has one place in a list of distinct keys. -/
theorem before_unique {α κ : Type*} {key : α → κ} {l s s' t t' : List α} {a a' : α}
    (h : (l.map key).Nodup) (hs : l = s ++ a :: t) (hs' : l = s' ++ a' :: t')
    (hkey : key a = key a') : s = s' := by
  have hat : (l.map key)[s.length]? = some (key a) := by simp [hs]
  have hat' : (l.map key)[s'.length]? = some (key a') := by simp [hs']
  have hlt : s.length < (l.map key).length := by simp [hs]
  have hlen : s.length = s'.length :=
    (List.getElem?_inj hlt h).mp (by rw [hat, hat', hkey])
  have htake : l.take s.length = s := by simp [hs]
  rw [hlen, hs', List.take_left] at htake
  exact htake.symm

theorem serveOrder_eq (fset : FrontendSet β) (start number : Int) :
    fset.serveOrder start number =
      (List.range number.toNat).flatMap fun i : Nat =>
        serveAt (start + i - 1) fset.backendSets 0 := by
  simp [FrontendSet.serveOrder, List.flatMap_assoc]

theorem ascending_serveOrder (fset : FrontendSet β) (start number : Int) :
    Ascending (fset.serveOrder start number) := by
  rw [Ascending, serveOrder_eq, List.pairwise_flatMap]
  constructor
  · intro i _
    cases hserve : serveAt (start + i - 1) fset.backendSets 0 with
    | nil => exact .nil
    | cons j l =>
      obtain ⟨-, -, -, -, hone, -⟩ := serveAt_eq (j := j) (hserve ▸ List.mem_cons_self)
      rw [← hserve, hone]
      exact List.pairwise_singleton _ _
  · refine List.pairwise_lt_range.imp ?_
    intro i i' hlt j hj k hk heq
    obtain ⟨before, b, after, hsets, -, hb, -, hpos, -⟩ := serveAt_eq hj
    obtain ⟨before', b', after', hsets', -, hb', -, hpos', -⟩ := serveAt_eq hk
    -- a backend has one place in the list
    have hbefore : before = before' :=
      before_unique fset.distinct hsets hsets' (hb.symm.trans (heq.trans hb'))
    subst hbefore
    omega

theorem ascending_jobs (rep : Rep) (fset : FrontendSet BackendPtr) (start number : Int) :
    Ascending (fset.jobs rep start number) := by
  unfold FrontendSet.jobs
  cases rep.mergeType with
  | roundRobin => exact ascending_roundRobin fset start number
  | serveOrder => exact ascending_serveOrder fset start number

/-- The jobs are for backends of the set, and no request has a start yet. -/
theorem mem_jobs {rep : Rep} {fset : FrontendSet BackendPtr} {start number : Int}
    {j : PresentJob BackendPtr} (h : j ∈ fset.jobs rep start number) :
    j.backend ∈ fset.backendSets.map BackendSet.backend ∧ j.start = 0 := by
  unfold FrontendSet.jobs at h
  cases hmerge : rep.mergeType with
  | roundRobin =>
    rw [hmerge] at h
    obtain ⟨m, first, hrr⟩ := roundRobin_window fset start number
    simp only [hrr] at h
    obtain ⟨e, he, rfl⟩ := List.mem_map.mp h
    obtain ⟨-, c, hc, -⟩ := mem_interleave.mp (List.mem_of_mem_drop (List.mem_of_mem_take he))
    refine ⟨?_, rfl⟩
    rw [← map_fst_queuesFrom m]
    exact List.mem_map.mpr ⟨_, hc, rfl⟩
  | serveOrder =>
    rw [hmerge] at h
    simp only [serveOrder_eq, List.mem_flatMap] at h
    obtain ⟨i, -, hj⟩ := h
    obtain ⟨before, b, after, hsets, -, hb, hstart, -⟩ := serveAt_eq hj
    exact ⟨by simp [hsets, hb], hstart⟩

/-! ## Windows -/

theorem window_concat (b : BackendPtr) (jobs : List (PresentJob BackendPtr))
    (j : PresentJob BackendPtr) :
    window b (jobs ++ [j]) =
      if j.backend = b then
        (if (window b jobs).1 = -1 ∨ j.pos < (window b jobs).1 then j.pos else (window b jobs).1,
          if (window b jobs).2 = -1 ∨ j.pos > (window b jobs).2 then j.pos else (window b jobs).2)
      else window b jobs := by
  rw [window, List.foldl_append]
  rfl

/-- The positions of a backend other than -1 run from `w.1` to `w.2`; it is not asked when there
are none. -/
structure Spans (b : BackendPtr) (jobs : List (PresentJob BackendPtr)) (w : Int × Int) : Prop where
  none_iff : w.1 = -1 ↔ ∀ j ∈ jobs, j.backend = b → j.pos = -1
  last_none : w.1 = -1 → w.2 = -1
  start_mem : w.1 ≠ -1 → ∃ j ∈ jobs, j.backend = b ∧ j.pos = w.1
  last_mem : w.1 ≠ -1 → ∃ j ∈ jobs, j.backend = b ∧ j.pos = w.2
  start_le : w.1 ≠ -1 → ∀ j ∈ jobs, j.backend = b → j.pos ≠ -1 → w.1 ≤ j.pos
  le_last : ∀ j ∈ jobs, j.backend = b → j.pos ≤ w.2

section Spans

variable {b : BackendPtr} {jobs : List (PresentJob BackendPtr)} {j : PresentJob BackendPtr}
  {w : Int × Int}

theorem forall_concat_iff (hb : j.backend = b) (P : PresentJob BackendPtr → Prop) :
    (∀ k ∈ jobs ++ [j], k.backend = b → P k) ↔ (∀ k ∈ jobs, k.backend = b → P k) ∧ P j := by
  simp only [List.mem_append, List.mem_singleton]
  refine ⟨fun hP => ⟨fun k hk => hP k (.inl hk), hP j (.inr rfl) hb⟩, ?_⟩
  rintro ⟨hP, hPj⟩ k (hk | rfl) hkb
  · exact hP k hk hkb
  · exact hPj

theorem forall_concat_of_ne (hb : j.backend ≠ b) (P : PresentJob BackendPtr → Prop) :
    (∀ k ∈ jobs ++ [j], k.backend = b → P k) ↔ ∀ k ∈ jobs, k.backend = b → P k := by
  simp only [List.mem_append, List.mem_singleton]
  refine ⟨fun hP k hk => hP k (.inl hk), ?_⟩
  rintro hP k (hk | rfl) hkb
  · exact hP k hk hkb
  · exact absurd hkb hb

/-- The first position other than -1, or the first of all. -/
theorem Spans.first (hw : Spans b jobs w) (hb : j.backend = b)
    (hbefore : ∀ k ∈ jobs, k.backend = b → k.pos < j.pos) (hnone : w.1 = -1) :
    Spans b (jobs ++ [j]) (j.pos, j.pos) := by
  have hold := hw.none_iff.mp hnone
  refine ⟨?_, id, fun _ => ⟨j, by simp, hb, rfl⟩, fun _ => ⟨j, by simp, hb, rfl⟩, ?_, ?_⟩
  · rw [forall_concat_iff hb]
    exact ⟨fun hj => ⟨hold, hj⟩, And.right⟩
  · intro _
    rw [forall_concat_iff hb]
    exact ⟨fun k hk hkb hne => absurd (hold k hk hkb) hne, fun _ => Int.le_refl _⟩
  · rw [forall_concat_iff hb]
    exact ⟨fun k hk hkb => Int.le_of_lt (hbefore k hk hkb), Int.le_refl _⟩

theorem Spans.next (hw : Spans b jobs w) (hb : j.backend = b)
    (hbefore : ∀ k ∈ jobs, k.backend = b → k.pos < j.pos) (hnone : w.1 ≠ -1) :
    Spans b (jobs ++ [j]) (w.1, j.pos) := by
  obtain ⟨k, hk, hkb, hkpos⟩ := hw.start_mem hnone
  have hkj := hbefore k hk hkb
  refine ⟨?_, fun h1 => absurd h1 hnone, fun _ => ⟨k, by simp [hk], hkb, hkpos⟩,
    fun _ => ⟨j, by simp, hb, rfl⟩, ?_, ?_⟩
  · rw [forall_concat_iff hb]
    exact ⟨fun h1 => absurd h1 hnone, fun h1 => hw.none_iff.mpr h1.1⟩
  · intro _
    rw [forall_concat_iff hb]
    exact ⟨hw.start_le hnone, fun _ => hkpos ▸ Int.le_of_lt hkj⟩
  · rw [forall_concat_iff hb]
    exact ⟨fun k hk hkb => Int.le_of_lt (hbefore k hk hkb), Int.le_refl _⟩

theorem Spans.other (hw : Spans b jobs w) (hb : j.backend ≠ b) : Spans b (jobs ++ [j]) w := by
  refine ⟨?_, hw.last_none, fun hne => ?_, fun hne => ?_, fun hne => ?_, ?_⟩
  · rw [forall_concat_of_ne hb]
    exact hw.none_iff
  · obtain ⟨k, hk, hkb⟩ := hw.start_mem hne
    exact ⟨k, by simp [hk], hkb⟩
  · obtain ⟨k, hk, hkb⟩ := hw.last_mem hne
    exact ⟨k, by simp [hk], hkb⟩
  · rw [forall_concat_of_ne hb]
    exact hw.start_le hne
  · rw [forall_concat_of_ne hb]
    exact hw.le_last

end Spans

theorem spans_window (b : BackendPtr) {jobs : List (PresentJob BackendPtr)} (h : Ascending jobs) :
    Spans b jobs (window b jobs) := by
  induction jobs using List.reverseRecOn with
  | nil =>
    refine ⟨by simp [window], fun _ => rfl, ?_, ?_, ?_, by simp⟩
    · exact fun hne => absurd rfl hne
    · exact fun hne => absurd rfl hne
    · exact fun hne => absurd rfl hne
  | append_singleton jobs j ih =>
    obtain ⟨hjobs, -, hlt⟩ := List.pairwise_append.mp h
    have hw := ih hjobs
    rw [window_concat]
    by_cases hb : j.backend = b
    · have hbefore : ∀ k ∈ jobs, k.backend = b → k.pos < j.pos :=
        fun k hk hkb => hlt k hk j (by simp) (hkb.trans hb.symm)
      rw [if_pos hb]
      by_cases hnone : (window b jobs).1 = -1
      · rw [if_pos (.inl hnone), if_pos (.inl (hw.last_none hnone))]
        exact hw.first hb hbefore hnone
      · obtain ⟨k, hk, hkb, hkpos⟩ := hw.start_mem hnone
        have hkj := hbefore k hk hkb
        have hstart : ¬ ((window b jobs).1 = -1 ∨ j.pos < (window b jobs).1) := by omega
        obtain ⟨l, hl, hlb, hlpos⟩ := hw.last_mem hnone
        have hlj := hbefore l hl hlb
        have hlast : (window b jobs).2 = -1 ∨ j.pos > (window b jobs).2 := by omega
        rw [if_neg hstart, if_pos hlast]
        exact hw.next hb hbefore hnone
    · rw [if_neg hb]
      exact hw.other hb

/-- `m_start` as the loop over the sets leaves it. -/
def place (jobs : List (PresentJob BackendPtr)) (j : PresentJob BackendPtr) :
    PresentJob BackendPtr :=
  let w := window j.backend jobs
  if w.1 ≠ -1 ∧ j.pos ≥ w.1 ∧ j.pos ≤ w.2 then { j with start := w.1 } else j

@[simp] theorem backend_place (jobs : List (PresentJob BackendPtr)) (j : PresentJob BackendPtr) :
    (place jobs j).backend = j.backend := by
  simp only [place]
  split_ifs <;> rfl

def askOf (jobs : List (PresentJob BackendPtr)) (b : BackendPtr) : Option Ask :=
  let w := window b jobs
  if w.1 ≠ -1 then some ⟨b, w.1, w.2 - w.1 + 1⟩ else none

theorem window_map (b : BackendPtr) (jobs : List (PresentJob BackendPtr))
    {g : PresentJob BackendPtr → PresentJob BackendPtr}
    (hg : ∀ j, (g j).backend = j.backend ∧ (g j).pos = j.pos) :
    window b (jobs.map g) = window b jobs := by
  rw [window, List.foldl_map, window]
  congr 1
  funext w j
  obtain ⟨hb, hpos⟩ := hg j
  simp only [hb, hpos]

theorem plan_eq {sets : List (BackendSet BackendPtr)}
    (h : (sets.map BackendSet.backend).Nodup) (jobs : List (PresentJob BackendPtr)) :
    plan sets jobs =
      (jobs.map fun j => if j.backend ∈ sets.map BackendSet.backend then place jobs j else j,
        sets.filterMap fun b => askOf jobs b.backend) := by
  induction sets generalizing jobs with
  | nil => simp [plan]
  | cons b sets ih =>
    obtain ⟨hb, hsets⟩ := List.nodup_cons.mp h
    rw [plan]
    by_cases hnone : (window b.backend jobs).1 = -1
    · have hask : askOf jobs b.backend = none := by simp [askOf, hnone]
      simp only [hnone, ne_eq, not_true_eq_false, if_false, ih hsets]
      rw [List.filterMap_cons_none (by exact hask)]
      congr 1
      refine List.map_congr_left fun j _ => ?_
      by_cases hj : j.backend = b.backend
      · have hplace : place jobs j = j := by simp [place, hj, hnone]
        simp [hplace]
      · simp [hj]
    · have hask : askOf jobs b.backend = some ⟨b.backend, (window b.backend jobs).1,
          (window b.backend jobs).2 - (window b.backend jobs).1 + 1⟩ := by simp [askOf, hnone]
      set g : PresentJob BackendPtr → PresentJob BackendPtr := fun j =>
        if j.backend = b.backend ∧ j.pos ≥ (window b.backend jobs).1 ∧
            j.pos ≤ (window b.backend jobs).2 then
          { j with start := (window b.backend jobs).1 } else j with hg
      have hkeep : ∀ j, (g j).backend = j.backend ∧ (g j).pos = j.pos := by
        intro j
        simp only [hg]
        split_ifs <;> exact ⟨rfl, rfl⟩
      simp only [ne_eq, hnone, not_false_eq_true, if_true]
      rw [← hg, ih hsets, List.filterMap_cons_some (by exact hask)]
      simp only [List.map_map, askOf, window_map _ _ hkeep]
      congr 1
      refine List.map_congr_left fun j _ => ?_
      simp only [Function.comp_apply, place, window_map _ _ hkeep, hkeep, List.map_cons,
        List.mem_cons]
      by_cases hj : j.backend = b.backend
      · rw [hj, if_neg hb]
        simp [hg, hj, hnone]
      · have hgj : g j = j := by simp [hg, hj]
        simp [hj, hgj]

/-! ## What a present request asks for -/

/-- The jobs of a request for a result set. -/
def jobsOf (rep : Rep) (fset : FrontendSet BackendPtr) (req : Z3950.PresentRequest) :
    List (PresentJob BackendPtr) :=
  fset.jobs rep (Util.toInt req.resultSetStartPoint) (Util.toInt req.numberOfRecordsRequested)

def asksOf (rep : Rep) (fset : FrontendSet BackendPtr) (req : Z3950.PresentRequest) : List Ask :=
  fset.backendSets.filterMap fun b => askOf (jobsOf rep fset req) b.backend

theorem plan_jobsOf (rep : Rep) (fset : FrontendSet BackendPtr) (req : Z3950.PresentRequest) :
    plan fset.backendSets (jobsOf rep fset req) =
      ((jobsOf rep fset req).map (place (jobsOf rep fset req)), asksOf rep fset req) := by
  rw [plan_eq fset.distinct, asksOf]
  congr 1
  refine List.map_congr_left fun j hj => ?_
  rw [if_pos (mem_jobs hj).1]

/-- A backend is asked when it has a position other than -1. -/
def Asked (jobs : List (PresentJob BackendPtr)) (b : BackendPtr) : Prop :=
  ∃ j ∈ jobs, j.backend = b ∧ j.pos ≠ -1

theorem asked_iff {jobs : List (PresentJob BackendPtr)} (h : Ascending jobs) (b : BackendPtr) :
    Asked jobs b ↔ (window b jobs).1 ≠ -1 := by
  rw [ne_eq, (spans_window b h).none_iff]
  simp [Asked]

theorem mem_asksOf {rep : Rep} {fset : FrontendSet BackendPtr} {req : Z3950.PresentRequest}
    {a : Ask} : a ∈ asksOf rep fset req ↔ Asked (jobsOf rep fset req) a.backend ∧
      a = ⟨a.backend, (window a.backend (jobsOf rep fset req)).1,
        (window a.backend (jobsOf rep fset req)).2 -
          (window a.backend (jobsOf rep fset req)).1 + 1⟩ := by
  have hasc : Ascending (jobsOf rep fset req) := ascending_jobs _ _ _ _
  rw [asked_iff hasc, asksOf, List.mem_filterMap]
  constructor
  · rintro ⟨b, -, hask⟩
    simp only [askOf] at hask
    split_ifs at hask with hne
    cases hask
    exact ⟨hne, rfl⟩
  · rintro ⟨hne, ha⟩
    obtain ⟨j, hj, hjb, -⟩ := (asked_iff hasc _).mpr hne
    obtain ⟨b, hb, hbb⟩ := List.mem_map.mp (mem_jobs hj).1
    refine ⟨b, hb, ?_⟩
    rw [hbb, hjb, askOf]
    simp only [ne_eq, hne, not_false_eq_true, if_true]
    rw [← ha]

theorem mem_asked {rep : Rep} {fset : FrontendSet BackendPtr} {req : Z3950.PresentRequest}
    {b : BackendPtr} :
    b ∈ (asksOf rep fset req).map Ask.backend ↔ Asked (jobsOf rep fset req) b := by
  rw [List.mem_map]
  constructor
  · rintro ⟨a, ha, rfl⟩
    exact (mem_asksOf.mp ha).1
  · intro h
    exact ⟨⟨b, (window b (jobsOf rep fset req)).1, (window b (jobsOf rep fset req)).2 -
      (window b (jobsOf rep fset req)).1 + 1⟩, mem_asksOf.mpr ⟨h, rfl⟩, rfl⟩

/-- A first position of -1 is taken for none: the job keeps its `m_start` of 0. -/
def Overlooked (jobs : List (PresentJob BackendPtr)) (j : PresentJob BackendPtr) : Prop :=
  j.pos = -1 ∧ ∀ k ∈ jobs, k.backend = j.backend → -1 ≤ k.pos

theorem insidePos_place {jobs : List (PresentJob BackendPtr)} (h : Ascending jobs)
    {j : PresentJob BackendPtr} (hj : j ∈ jobs) (hover : ¬ Overlooked jobs j) :
    (place jobs j).insidePos = j.pos - (window j.backend jobs).1 ∧
      (window j.backend jobs).1 ≠ -1 ∧ (window j.backend jobs).1 ≤ j.pos := by
  have hw := spans_window j.backend h
  have hlast := hw.le_last j hj rfl
  have hstart : (window j.backend jobs).1 ≠ -1 ∧ (window j.backend jobs).1 ≤ j.pos := by
    by_cases hpos : j.pos = -1
    · -- a position before -1 comes first
      simp only [Overlooked, hpos, true_and, not_forall] at hover
      obtain ⟨k, hk, hkb, hlt⟩ := hover
      have hne : (window j.backend jobs).1 ≠ -1 := by
        intro h1
        have := hw.none_iff.mp h1 k hk hkb
        omega
      have := hw.start_le hne k hk hkb (by omega)
      exact ⟨hne, by omega⟩
    · have hne : (window j.backend jobs).1 ≠ -1 := fun h1 => hpos (hw.none_iff.mp h1 j hj rfl)
      exact ⟨hne, hw.start_le hne j hj rfl hpos⟩
  refine ⟨?_, hstart⟩
  rw [place]
  simp only [ne_eq, hstart.1, not_false_eq_true, ge_iff_le, hstart.2, hlast, true_and, if_true]
  rfl

theorem insidePos_overlooked {jobs : List (PresentJob BackendPtr)} (h : Ascending jobs)
    {j : PresentJob BackendPtr} (h0 : j.start = 0) (hover : Overlooked jobs j) :
    (place jobs j).insidePos = -1 := by
  have hw := spans_window j.backend h
  have hno : ¬ ((window j.backend jobs).1 ≠ -1 ∧ j.pos ≥ (window j.backend jobs).1 ∧
      j.pos ≤ (window j.backend jobs).2) := by
    rintro ⟨hne, hge, -⟩
    obtain ⟨k, hk, hkb, hkpos⟩ := hw.start_mem hne
    have := hover.2 k hk hkb
    have := hover.1
    omega
  have hplace : place jobs j = j := if_neg hno
  rw [hplace, PresentJob.insidePos, hover.1, h0]
  rfl

end Multi
end Metaproxy
