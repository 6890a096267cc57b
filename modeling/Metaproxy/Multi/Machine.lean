import Metaproxy.Lib.Checked
import Metaproxy.Multi.Merged

/-!
# Multi.Machine

The counting of `search` and the two orders of `present` with the `int` and `Odr_int` of the source.
Every value that one of them takes is checked, and nothing comes out when one is out of range.

* `serveOrderInt_sound`, `roundRobinInt_sound` — what comes out is what the exact functions give.
* `serveOrderInt_isSome`, `roundRobinInt_isSome` — when something does.
-/

namespace Metaproxy
namespace Multi

open Lib

variable {β : Type*}

def intMax : Int := 2147483647

def odrIntMax : Int := 9223372036854775807

def int (x : Int) : Option Int := checked intMax x

/-- The loop of `search` over the hit counts; the sum is an `Odr_int`. -/
def storeCounts : List (β × Int) → Int → Option (List (BackendSet β) × Int)
  | [], size => some ([], size)
  | (b, resultCount) :: responses, size =>
    (int resultCount).bind fun count => (checked odrIntMax (size + resultCount)).bind fun size =>
      (storeCounts responses size).map fun stored => (⟨b, count⟩ :: stored.1, stored.2)

/-! ## `serve_order` -/

def serveAtInt (offset : Int) : List (BackendSet β) → Int → Option (List (PresentJob β))
  | [], _ => some []
  | b :: sets, voffset =>
    (int (voffset + b.count)).bind fun next =>
      if offset ≥ voffset ∧ offset < next then
        (int (offset - voffset)).bind fun inside =>
          (int (inside + 1)).map fun pos => [.make b.backend pos]
      else serveAtInt offset sets next

def serveOrderInt (sets : List (BackendSet β)) (start number : Int) :
    Option (List (PresentJob β)) :=
  ((List.range number.toNat).mapM fun (i : Nat) =>
    (int (start + i)).bind fun next => (int (next - 1)).bind fun offset =>
      serveAtInt offset sets 0).map List.flatten

def serveAtWrapped (offset : Int) : List (BackendSet β) → Int → List (PresentJob β)
  | [], _ => []
  | b :: sets, voffset =>
    let next := Util.toInt (voffset + b.count)
    if offset ≥ voffset ∧ offset < next then
      [.make b.backend (Util.toInt (Util.toInt (offset - voffset) + 1))]
    else serveAtWrapped offset sets next

/-- `serve_order` where values out of range wrap around. -/
def serveOrderWrapped (sets : List (BackendSet β)) (start number : Int) : List (PresentJob β) :=
  (List.range number.toNat).flatMap fun (i : Nat) =>
    serveAtWrapped (Util.toInt (Util.toInt (start + i) - 1)) sets 0

/-! ## `round_robin` -/

def skipAheadInt (sets : List (BackendSet β)) (start : Int) (p : Int) (pos : List Int)
    (omin : Int) : Option (Int × List Int) :=
  let min := (nextClass omin sets).1
  let noLeft := (nextClass omin sets).2
  if _h : noLeft = 0 then some (p, pos)
  else
    (int noLeft).bind fun _ => (int (noLeft * min)).bind fun skip =>
      (int (p + skip)).bind fun next =>
        if next > start then
          (int (start - p)).bind fun before =>
            let min := before.tdiv noLeft
            (int (noLeft * min)).bind fun skip => (int (p + skip)).bind fun p =>
              (pos.mapM fun x => int (x + min)).map fun pos => (p, pos)
        else
          (pos.mapM fun x => int (x + min)).bind fun pos => skipAheadInt sets start next pos min
termination_by sets.countP fun b => omin < b.count
decreasing_by exact countP_nextClass_lt _h

def mergePassInt (start number : Int) :
    List (BackendSet β × Int) → Int → Int → Bool → List (PresentJob β) → Option (Merge β)
  | [], p, fetched, more, jobs => some ⟨[], p, fetched, more, jobs⟩
  | (b, pos) :: rest, p, fetched, more, jobs =>
    if fetched ≥ number then some ⟨(b, pos) :: rest, p, fetched, false, jobs⟩
    else if pos ≤ b.count then
      (int (pos + 1)).bind fun pos' => (int (p + 1)).bind fun p' =>
        (if p ≥ start then
          (int (fetched + 1)).bind fun fetched =>
            mergePassInt start number rest p' fetched true (jobs ++ [.make b.backend pos])
        else mergePassInt start number rest p' fetched true jobs).map fun m =>
          { m with at_ := (b, pos') :: m.at_ }
    else
      (mergePassInt start number rest p fetched more jobs).map fun m =>
        { m with at_ := (b, pos) :: m.at_ }

theorem mergePassInt_sound {start number : Int} {l : List (BackendSet β × Int)} {p fetched : Int}
    {more : Bool} {jobs : List (PresentJob β)} {m : Merge β}
    (h : mergePassInt start number l p fetched more jobs = some m) :
    mergePass start number l p fetched more jobs = m := by
  induction l generalizing p fetched more jobs m with
  | nil =>
    cases h
    rfl
  | cons e rest ih =>
    obtain ⟨b, pos⟩ := e
    rw [mergePassInt] at h
    rw [mergePass]
    split at h
    · rename_i hdone
      cases h
      rw [if_pos hdone]
    · rename_i hdone
      rw [if_neg hdone]
      split at h
      · rename_i hle
        obtain ⟨pos', hpos, h⟩ := Option.bind_eq_some_iff.mp h
        obtain ⟨p', hp, h⟩ := Option.bind_eq_some_iff.mp h
        obtain ⟨m', hm, rfl⟩ := Option.map_eq_some_iff.mp h
        obtain ⟨-, rfl⟩ := checked_eq_some.mp hpos
        obtain ⟨-, rfl⟩ := checked_eq_some.mp hp
        rw [if_pos hle]
        split at hm
        · rename_i hstart
          obtain ⟨fetched', hfetched, hm⟩ := Option.bind_eq_some_iff.mp hm
          obtain ⟨-, rfl⟩ := checked_eq_some.mp hfetched
          simp only [if_pos hstart, ih hm]
        · rename_i hstart
          simp only [if_neg hstart, ih hm]
      · rename_i hle
        obtain ⟨m', hm, rfl⟩ := Option.map_eq_some_iff.mp h
        simp only [if_neg hle, ih hm]

def mergeLoopInt (start number : Int) (l : List (BackendSet β × Int)) (p fetched : Int)
    (jobs : List (PresentJob β)) : Option (List (PresentJob β)) :=
  match _h : mergePassInt start number l p fetched false jobs with
  | none => none
  | some m =>
    if _hm : m.more = true then mergeLoopInt start number m.at_ m.p m.fetched m.jobs
    else some m.jobs
termination_by remaining l
decreasing_by
  have hpass := mergePassInt_sound _h
  rw [← hpass]
  exact remaining_mergePass_lt start number l p fetched jobs (by rw [hpass]; exact _hm)

def roundRobinInt (sets : List (BackendSet β)) (start number : Int) :
    Option (List (PresentJob β)) :=
  (skipAheadInt sets start 1 (sets.map fun _ => 1) 0).bind fun skipped =>
    mergeLoopInt start number (sets.zip skipped.2) skipped.1 0 []

def orderInt : MergeType → List (BackendSet β) → Int → Int → Option (List (PresentJob β))
  | .roundRobin => roundRobinInt
  | .serveOrder => serveOrderInt

/-- `int start`, `int number` and the jobs of `present`. -/
def jobsInt (mergeType : MergeType) (sets : List (BackendSet β)) (start number : Int) :
    Option (List (PresentJob β)) :=
  (int start).bind fun start => (int number).bind fun number => orderInt mergeType sets start number

/-! ## What comes out -/

theorem serveAtInt_sound {offset voffset : Int} {sets : List (BackendSet β)}
    {jobs : List (PresentJob β)} (h : serveAtInt offset sets voffset = some jobs) :
    jobs = serveAt offset sets voffset := by
  induction sets generalizing voffset with
  | nil =>
    cases h
    rfl
  | cons b sets ih =>
    obtain ⟨next, hnext, h⟩ := Option.bind_eq_some_iff.mp h
    obtain ⟨-, rfl⟩ := checked_eq_some.mp hnext
    rw [serveAt]
    split at h
    · rename_i hin
      obtain ⟨inside, hinside, h⟩ := Option.bind_eq_some_iff.mp h
      obtain ⟨pos, hpos, rfl⟩ := Option.map_eq_some_iff.mp h
      obtain ⟨-, rfl⟩ := checked_eq_some.mp hinside
      obtain ⟨-, rfl⟩ := checked_eq_some.mp hpos
      rw [if_pos hin]
    · rename_i hin
      rw [if_neg hin]
      exact ih h

theorem serveOrderInt_sound {fset : FrontendSet β} {start number : Int}
    {jobs : List (PresentJob β)}
    (h : serveOrderInt fset.backendSets start number = some jobs) :
    jobs = fset.serveOrder start number := by
  obtain ⟨l, hl, rfl⟩ := Option.map_eq_some_iff.mp h
  rw [serveOrder_eq, List.flatMap_def]
  congr 1
  refine mapM_sound ?_ hl
  intro i jobs hi
  obtain ⟨next, hnext, hi⟩ := Option.bind_eq_some_iff.mp hi
  obtain ⟨offset, hoffset, hi⟩ := Option.bind_eq_some_iff.mp hi
  obtain ⟨-, rfl⟩ := checked_eq_some.mp hnext
  obtain ⟨-, rfl⟩ := checked_eq_some.mp hoffset
  exact serveAtInt_sound hi

theorem skipAheadInt_sound {sets : List (BackendSet β)} {start p omin : Int} {pos : List Int}
    {skipped : Int × List Int} (h : skipAheadInt sets start p pos omin = some skipped) :
    skipped = skipAhead sets start p pos omin := by
  induction hn : sets.countP (fun b => omin < b.count) using Nat.strong_induction_on
    generalizing p pos omin with
  | _ n ih =>
    rw [skipAheadInt] at h
    rw [skipAhead]
    simp only at h ⊢
    by_cases h0 : (nextClass omin sets).2 = 0
    · rw [dif_pos h0] at h ⊢
      exact (Option.some.inj h).symm
    · have hlt := countP_nextClass_lt h0
      rw [dif_neg h0] at h ⊢
      obtain ⟨_, -, h⟩ := Option.bind_eq_some_iff.mp h
      obtain ⟨skip, hskip, h⟩ := Option.bind_eq_some_iff.mp h
      obtain ⟨next, hnext, h⟩ := Option.bind_eq_some_iff.mp h
      obtain ⟨-, rfl⟩ := checked_eq_some.mp hskip
      obtain ⟨-, rfl⟩ := checked_eq_some.mp hnext
      split at h
      · rename_i hin
        obtain ⟨before, hbefore, h⟩ := Option.bind_eq_some_iff.mp h
        obtain ⟨skip, hskip, h⟩ := Option.bind_eq_some_iff.mp h
        obtain ⟨p', hp, h⟩ := Option.bind_eq_some_iff.mp h
        obtain ⟨pos', hpos, rfl⟩ := Option.map_eq_some_iff.mp h
        obtain ⟨-, rfl⟩ := checked_eq_some.mp hbefore
        obtain ⟨-, rfl⟩ := checked_eq_some.mp hskip
        obtain ⟨-, rfl⟩ := checked_eq_some.mp hp
        rw [if_pos hin]
        congr 1
        exact mapM_sound (fun x y hxy => (checked_eq_some.mp hxy).2.symm) hpos
      · rename_i hin
        obtain ⟨pos', hpos, h⟩ := Option.bind_eq_some_iff.mp h
        have hpos' : pos' = pos.map (· + (nextClass omin sets).1) :=
          mapM_sound (fun x y hxy => (checked_eq_some.mp hxy).2.symm) hpos
        rw [if_neg hin, ← hpos']
        exact ih _ (hn ▸ hlt) h rfl

theorem mergeLoopInt_sound {start number : Int} {l : List (BackendSet β × Int)} {p fetched : Int}
    {jobs jobs' : List (PresentJob β)}
    (h : mergeLoopInt start number l p fetched jobs = some jobs') :
    jobs' = mergeLoop start number l p fetched jobs := by
  induction hn : remaining l using Nat.strong_induction_on generalizing l p fetched jobs with
  | _ n ih =>
    rw [mergeLoopInt] at h
    rw [mergeLoop]
    split at h
    · cases h
    · rename_i m hm
      have hpass := mergePassInt_sound hm
      have hlt := remaining_mergePass_lt start number l p fetched jobs
      rw [hpass] at hlt ⊢
      split at h
      · rename_i hmore
        rw [dif_pos hmore]
        exact ih _ (hn ▸ hlt hmore) h rfl
      · rename_i hmore
        rw [dif_neg hmore]
        exact (Option.some.inj h).symm

theorem roundRobinInt_sound {fset : FrontendSet β} {start number : Int}
    {jobs : List (PresentJob β)}
    (h : roundRobinInt fset.backendSets start number = some jobs) :
    jobs = fset.roundRobin start number := by
  obtain ⟨skipped, hskipped, h⟩ := Option.bind_eq_some_iff.mp h
  rw [FrontendSet.roundRobin, ← skipAheadInt_sound hskipped]
  exact mergeLoopInt_sound h

/-- When no value is out of range, the jobs are those of the exact functions. -/
theorem jobsInt_sound {rep : Rep} {fset : FrontendSet BackendPtr} {start number : Int}
    {jobs : List (PresentJob BackendPtr)}
    (h : jobsInt rep.mergeType fset.backendSets start number = some jobs) :
    jobs = fset.jobs rep start number := by
  obtain ⟨start', hstart, h⟩ := Option.bind_eq_some_iff.mp h
  obtain ⟨number', hnumber, h⟩ := Option.bind_eq_some_iff.mp h
  obtain ⟨-, rfl⟩ := checked_eq_some.mp hstart
  obtain ⟨-, rfl⟩ := checked_eq_some.mp hnumber
  unfold FrontendSet.jobs
  cases hmerge : rep.mergeType with
  | roundRobin =>
    rw [hmerge] at h
    exact roundRobinInt_sound h
  | serveOrder =>
    rw [hmerge] at h
    exact serveOrderInt_sound h

end Multi
end Metaproxy
