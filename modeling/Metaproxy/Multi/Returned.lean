import Metaproxy.Multi.Answered
import Metaproxy.Multi.Merged

/-!
# Multi.Returned

What `Frontend::present` returns for a window inside the hits when every backend that is asked
returns the first records of the window it was sent.

* `assemble_returned` — the records of the response are those the backends have returned, in the
  order of the jobs.
* `present_merged` — they are the first `k` of the window if and only if no backend stops short of
  a record before another's; and a client that reads on gets every record once.
* `shortFirst_shifts` — a backend that returns one record less than it was asked for.
-/

namespace Metaproxy
namespace Multi

open Lib Z3950

variable {ρ : Type*}

/-- The source of a record: its backend and the position there. -/
def PresentJob.source (j : PresentJob BackendPtr) : BackendPtr × Int := (j.backend, j.pos)

/-- The window of the client. -/
def windowOf (rep : Rep) (fset : FrontendSet BackendPtr) (req : PresentRequest) :
    List (BackendPtr × Int) :=
  (jobsOf rep fset req).map PresentJob.source

/-- The record of a source, with the target it comes from. -/
def tagged (f : Frontend ρ) (content : BackendPtr × Int → NamePlusRecord ρ) (e : BackendPtr × Int) :
    NamePlusRecord ρ :=
  { content e with databaseName := some (f.backends e.1).vhost }

/-- Every backend that is asked returns the first `returned b` records of the window it was
sent. -/
def ReturnsFirst (rep : Rep) (f : Frontend ρ) (req : PresentRequest) (fset : FrontendSet BackendPtr)
    (content : BackendPtr × Int → NamePlusRecord ρ) (returned : BackendPtr → Nat)
    (out : BackendPtr → Outcome ρ) : Prop :=
  ∀ a ∈ asksOf rep fset req,
    f.isClosed a.backend = false ∧ (out a.backend).closed = false ∧
    ∃ res, (out a.backend).response = some (.present res) ∧
      (res.records = some (.databaseOrSurDiagnostics ⟨returned a.backend,
        (List.range (returned a.backend)).map fun i : Nat =>
          content (a.backend, a.start + i)⟩) ∨
      (res.records = none ∧ returned a.backend = 0))

/-- The backend has returned the record. -/
def covered (rep : Rep) (fset : FrontendSet BackendPtr) (req : PresentRequest)
    (returned : BackendPtr → Nat) (e : BackendPtr × Int) : Bool :=
  (asksOf rep fset req).any fun a => decide (a.backend = e.1 ∧ e.2 < a.start + returned e.1)

/-- The response has the first `k` records of the window. -/
def ReturnsWindow (rep : Rep) (f : Frontend ρ) (req : PresentRequest)
    (fset : FrontendSet BackendPtr) (content : BackendPtr × Int → NamePlusRecord ρ)
    (out : BackendPtr → Outcome ρ) : Prop :=
  (present rep f req out).closed = false ∧
  ∃ k : Nat, k ≤ (windowOf rep fset req).length ∧ ∃ res : PresentResponse (NamePlusRecord ρ),
    (present rep f req out).answer = .response (some (.present res)) ∧
    res.records = some (.databaseOrSurDiagnostics
      ⟨k, ((windowOf rep fset req).take k).map (tagged f content)⟩) ∧
    res.numberOfRecordsReturned = k ∧
    res.nextResultSetPosition = Util.toInt req.resultSetStartPoint + k

/-- A backend that stops short of a record stops short of all that come later in the window. -/
def StopsLast (rep : Rep) (fset : FrontendSet BackendPtr) (req : PresentRequest)
    (returned : BackendPtr → Nat) : Prop :=
  (windowOf rep fset req).Pairwise fun x y =>
    covered rep fset req returned y = true → covered rep fset req returned x = true

section Present

variable {rep : Rep} {f : Frontend ρ} {req : PresentRequest} {out : BackendPtr → Outcome ρ}
  {fset : FrontendSet BackendPtr} {content : BackendPtr × Int → NamePlusRecord ρ}
  {returned : BackendPtr → Nat}

theorem nodup_windowOf : (windowOf rep fset req).Nodup := by
  have hasc : Ascending (jobsOf rep fset req) := ascending_jobs _ _ _ _
  rw [windowOf, List.Nodup, List.pairwise_map]
  refine hasc.imp fun {j k} hlt heq => ?_
  have hb : j.backend = k.backend := congrArg Prod.fst heq
  have hpos : j.pos = k.pos := congrArg Prod.snd heq
  have := hlt hb
  omega

section InRange

variable (hrange : InRange fset (Util.toInt req.resultSetStartPoint)
  (Util.toInt req.numberOfRecordsRequested))
include hrange

theorem one_le_pos {j : PresentJob BackendPtr} (hj : j ∈ jobsOf rep fset req) : 1 ≤ j.pos :=
  (pos_of_mem_jobs (.inr hrange.one_le) hj).1

theorem asked_of_mem {j : PresentJob BackendPtr} (hj : j ∈ jobsOf rep fset req) :
    Asked (jobsOf rep fset req) j.backend := by
  have := one_le_pos hrange hj
  exact ⟨j, hj, rfl, by omega⟩

/-- With the window of its backend, a job's record is returned when its place in the window is. -/
theorem covered_iff (returned : BackendPtr → Nat) {j : PresentJob BackendPtr} (hj : j ∈ jobsOf rep fset req) :
    covered rep fset req returned j.source = true ↔
      j.pos < (window j.backend (jobsOf rep fset req)).1 + returned j.backend := by
  have hasked := asked_of_mem hrange hj
  simp only [covered, List.any_eq_true, decide_eq_true_eq]
  constructor
  · rintro ⟨a, ha, hb, hlt⟩
    have hstart : a.start = (window a.backend (jobsOf rep fset req)).1 := by
      rw [(mem_asksOf.mp ha).2]
    rw [hstart, hb] at hlt
    exact hlt
  · intro hlt
    exact ⟨⟨j.backend, (window j.backend (jobsOf rep fset req)).1,
      (window j.backend (jobsOf rep fset req)).2 - (window j.backend (jobsOf rep fset req)).1 + 1⟩,
      mem_asksOf.mpr ⟨hasked, rfl⟩, rfl, hlt⟩

theorem jobRecord_returned (hret : ReturnsFirst rep f req fset content returned out)
    {j : PresentJob BackendPtr} (hj : j ∈ jobsOf rep fset req) :
    jobRecord (presented rep f req out fset) (place (jobsOf rep fset req) j) =
      some (if covered rep fset req returned j.source then some (tagged f content j.source)
        else none) := by
  have hasc : Ascending (jobsOf rep fset req) := ascending_jobs _ _ _ _
  have hpos := one_le_pos hrange hj
  have hover : ¬ Overlooked (jobsOf rep fset req) j := fun ho => by
    have := ho.1
    omega
  have hasked := asked_of_mem hrange hj
  obtain ⟨hinside, -, hle⟩ := insidePos_place hasc hj hover
  obtain ⟨a, ha, hb⟩ := List.mem_map.mp (mem_asked.mpr hasked)
  have hstart : a.start = (window j.backend (jobsOf rep fset req)).1 := by
    rw [(mem_asksOf.mp ha).2, hb]
  obtain ⟨-, -, res, hres, hrecords⟩ := hret a ha
  rw [hb] at hres
  have hresponse : (presented rep f req out fset).response j.backend = some (.present res) := by
    rw [response_presented hasked, hres]
    rfl
  have hvhost : ((presented rep f req out fset).backends j.backend).vhost =
      (f.backends j.backend).vhost := by
    rw [presented, vhost_multiMove]
  have hcov := covered_iff hrange returned hj
  rw [jobRecord, backend_place, hresponse]
  simp only [hinside, hvhost]
  rcases hrecords with hrecords | ⟨hrecords, hzero⟩
  · rw [hb] at hrecords
    simp only [hrecords]
    by_cases hin : j.pos - (window j.backend (jobsOf rep fset req)).1 < returned j.backend
    · have hindex : (j.pos - (window j.backend (jobsOf rep fset req)).1).toNat <
          returned j.backend := by omega
      have hat : a.start +
          ((j.pos - (window j.backend (jobsOf rep fset req)).1).toNat : Int) = j.pos := by omega
      have hrecord : recordAt (⟨returned j.backend, (List.range (returned j.backend)).map fun i : Nat =>
          content (j.backend, a.start + i)⟩ : NamePlusRecordList (NamePlusRecord ρ))
          (j.pos - (window j.backend (jobsOf rep fset req)).1) = some (content j.source) := by
        rw [recordAt, if_pos (by omega), List.getElem?_map, List.getElem?_range hindex,
          Option.map_some, hat]
        rfl
      rw [if_pos hin, hrecord, if_pos (hcov.mpr (by omega))]
      rfl
    · rw [if_neg hin, if_neg (by rw [hcov]; omega)]
  · have hno : ¬ covered rep fset req returned j.source = true := by
      rw [hcov, ← hb, hzero, hb]
      omega
    simp only [hrecords]
    rw [if_neg hno]

theorem assemble_returned (hret : ReturnsFirst rep f req fset content returned out) :
    assemble (presented rep f req out fset) (placedOf rep req fset) =
      some (((windowOf rep fset req).filter (covered rep fset req returned)).map
        (tagged f content)) := by
  have hall : ∀ jobs : List (PresentJob BackendPtr), (∀ j ∈ jobs, j ∈ jobsOf rep fset req) →
      assemble (presented rep f req out fset) (jobs.map (place (jobsOf rep fset req))) =
        some (((jobs.map PresentJob.source).filter (covered rep fset req returned)).map
          (tagged f content)) := by
    intro jobs hjobs
    induction jobs with
    | nil => rfl
    | cons j jobs ih =>
      have hj := jobRecord_returned hrange hret (hjobs j List.mem_cons_self)
      have hrest := ih fun k hk => hjobs k (List.mem_cons_of_mem j hk)
      rw [List.map_cons, assemble, hj, hrest]
      cases hc : covered rep fset req returned j.source with
      | true => simp [hc]
      | false => simp [hc]
  exact hall _ fun j hj => hj

theorem decisionOf_returned (hret : ReturnsFirst rep f req fset content returned out) :
    decisionOf rep f req out fset = .assemble := by
  have hask : ∀ b, Asked (jobsOf rep fset req) b → ∃ a ∈ asksOf rep fset req, a.backend = b :=
    fun b hb => List.mem_map.mp (mem_asked.mpr hb)
  have hfresh : ∀ b, Asked (jobsOf rep fset req) b → Fresh Gdu.presentRecords f out b := by
    intro b hb hnone
    obtain ⟨a, ha, rfl⟩ := hask b hb
    obtain ⟨-, -, res, hres, -⟩ := hret a ha
    rw [hnone] at hres
    cases hres
  refine (decisionOf_eq_assemble hfresh).mpr ⟨?_, hrange.nonneg, ?_⟩
  · rintro ⟨hpassed, -⟩
    rcases hpassed with ⟨b, hb, hclosed⟩ | ⟨b, hb, hfails⟩
    · obtain ⟨a, ha, rfl⟩ := hask b hb
      obtain ⟨hf, hout, -⟩ := hret a ha
      rw [hf, hout] at hclosed
      cases hclosed
    · obtain ⟨a, ha, rfl⟩ := hask b hb
      obtain ⟨-, -, res, hres, hrecords⟩ := hret a ha
      rw [Outcome.fails, hres] at hfails
      rcases hrecords with hrecords | ⟨hrecords, -⟩
      · simp [Gdu.presentRecords, hrecords, fails] at hfails
      · simp [Gdu.presentRecords, hrecords, fails] at hfails
  · rw [jobsOf, length_jobs rep hrange]

/-- The records returned, and the position after them. -/
theorem present_returned (hset : f.sets.lookup req.resultSetId = some fset)
    (hret : ReturnsFirst rep f req fset content returned out) :
    (present rep f req out).closed = false ∧
      (present rep f req out).answer = presentRecords (Util.toInt req.resultSetStartPoint)
        (some (((windowOf rep fset req).filter (covered rep fset req returned)).map
          (tagged f content))) := by
  rw [present_eq hset, decisionOf_returned hrange hret, assemble_returned hrange hret]
  exact ⟨rfl, rfl⟩

theorem returnsWindow_iff (hset : f.sets.lookup req.resultSetId = some fset)
    (hret : ReturnsFirst rep f req fset content returned out) :
    ReturnsWindow rep f req fset content out ↔
      ∃ k ≤ (windowOf rep fset req).length,
        ((windowOf rep fset req).filter (covered rep fset req returned)).map (tagged f content) =
          ((windowOf rep fset req).take k).map (tagged f content) := by
  obtain ⟨hclosed, hanswer⟩ := present_returned hrange hset hret
  rw [ReturnsWindow, hanswer]
  constructor
  · rintro ⟨-, k, hk, res, hres, hrecords, -, -⟩
    simp only [presentRecords, Answer.response.injEq, Option.some.injEq, Gdu.present.injEq] at hres
    subst hres
    simp only [Option.some.injEq, Records.databaseOrSurDiagnostics.injEq,
      NamePlusRecordList.mk.injEq] at hrecords
    exact ⟨k, hk, hrecords.2⟩
  · rintro ⟨k, hk, heq⟩
    have hlen : (((windowOf rep fset req).take k).map (tagged f content)).length = k := by
      rw [List.length_map, List.length_take]
      omega
    refine ⟨hclosed, k, hk, _, rfl, ?_, ?_, ?_⟩
    all_goals rw [heq, hlen]

theorem returnsWindow_of_stopsLast (hset : f.sets.lookup req.resultSetId = some fset)
    (hret : ReturnsFirst rep f req fset content returned out)
    (hstops : StopsLast rep fset req returned) : ReturnsWindow rep f req fset content out := by
  obtain ⟨k, hk, heq⟩ := (filter_eq_take_iff nodup_windowOf _).mpr hstops
  exact (returnsWindow_iff hrange hset hret).mpr ⟨k, hk, by rw [heq]⟩

theorem stopsLast_of_returnsWindow (hset : f.sets.lookup req.resultSetId = some fset)
    (hret : ReturnsFirst rep f req fset content returned out)
    (hinj : Function.Injective (tagged f content))
    (hwindow : ReturnsWindow rep f req fset content out) : StopsLast rep fset req returned := by
  obtain ⟨k, hk, heq⟩ := (returnsWindow_iff hrange hset hret).mp hwindow
  exact (filter_eq_take_iff nodup_windowOf _).mp ⟨k, hk, hinj.list_map heq⟩

end InRange

end Present

/-! ## Reading on -/

/-- The request for a window. -/
def page (req : PresentRequest) (start number : Int) : PresentRequest :=
  { req with resultSetStartPoint := start, numberOfRecordsRequested := number }

/-- A client reads a set from `start` on, each time from the `nextResultSetPosition` of the
response before; `last` is the last of them. In no request does a backend stop short of a record
before another's, or `round_robin` skip less than to its start. -/
inductive ReadsOn (rep : Rep) (req : PresentRequest) (fset : FrontendSet BackendPtr)
    (content : BackendPtr × Int → NamePlusRecord ρ) :
    Frontend ρ → Int → List (NamePlusRecord ρ) → Int → Prop where
  | done (f : Frontend ρ) (start : Int) : ReadsOn rep req fset content f start [] start
  | next {f : Frontend ρ} {start number : Int} {returned : BackendPtr → Nat}
      {out : BackendPtr → Outcome ρ} {res : PresentResponse (NamePlusRecord ρ)}
      {l : NamePlusRecordList (NamePlusRecord ρ)} {records : List (NamePlusRecord ρ)} {last : Int}
      (hstart : Util.toInt start = start) (hnumber : Util.toInt number = number)
      (hrange : InRange fset start number)
      (hret : ReturnsFirst rep f (page req start number) fset content returned out)
      (hstops : StopsLast rep fset (page req start number) returned)
      (hskip : SkipsToStart rep fset start number)
      (hanswer : (present rep f (page req start number) out).answer =
        .response (some (.present res)))
      (hrecords : res.records = some (.databaseOrSurDiagnostics l))
      (hrest : ReadsOn rep req fset content (present rep f (page req start number) out).frontend
        res.nextResultSetPosition records last) :
      ReadsOn rep req fset content f start (l.records ++ records) last

/-- The records of the merged order. -/
def mergedRecords (rep : Rep) (f : Frontend ρ) (fset : FrontendSet BackendPtr)
    (content : BackendPtr × Int → NamePlusRecord ρ) : List (NamePlusRecord ρ) :=
  (mergedOrder rep fset).map fun e => tagged f content (e.1, e.2)

theorem windowOf_merged {rep : Rep} {f : Frontend ρ} {req : PresentRequest}
    {fset : FrontendSet BackendPtr} {content : BackendPtr × Int → NamePlusRecord ρ}
    {start number : Int} (hstart : Util.toInt start = start) (hnumber : Util.toInt number = number)
    (hrange : InRange fset start number) (hskip : SkipsToStart rep fset start number) :
    (windowOf rep fset (page req start number)).map (tagged f content) =
      ((mergedRecords rep f fset content).drop (start - 1).toNat).take number.toNat := by
  rw [windowOf, jobsOf]
  simp only [page, hstart, hnumber, jobs_merged hrange hskip, List.map_map, mergedRecords,
    List.map_take, List.map_drop]
  rfl

theorem mergedRecords_present {rep : Rep} {f : Frontend ρ} {req : PresentRequest}
    {fset : FrontendSet BackendPtr} {out : BackendPtr → Outcome ρ}
    (hset : f.sets.lookup req.resultSetId = some fset)
    (content : BackendPtr × Int → NamePlusRecord ρ) :
    mergedRecords rep (present rep f req out).frontend fset content =
      mergedRecords rep f fset content := by
  rw [present_eq hset, mergedRecords, mergedRecords]
  simp only [tagged, presented, vhost_multiMove]

/-- A client that reads on gets the records of the merged order, one after the other. -/
theorem readsOn_merged {rep : Rep} {req : PresentRequest} {fset : FrontendSet BackendPtr}
    {content : BackendPtr × Int → NamePlusRecord ρ} {f : Frontend ρ} {start last : Int}
    {records : List (NamePlusRecord ρ)} (h : ReadsOn rep req fset content f start records last)
    (hset : f.sets.lookup req.resultSetId = some fset) (hstart : 1 ≤ start) :
    ∃ n : Nat, last = start + n ∧
      records = ((mergedRecords rep f fset content).drop (start - 1).toNat).take n := by
  induction h with
  | done f start => exact ⟨0, by simp, by simp⟩
  | @next f start number returned out res l records last hint hnumber hrange hret hstops hskip
      hanswer hrecords hrest ih =>
    have hset' : f.sets.lookup (page req start number).resultSetId = some fset := hset
    have hrange' : InRange fset (Util.toInt (page req start number).resultSetStartPoint)
        (Util.toInt (page req start number).numberOfRecordsRequested) := by
      simpa only [page, hint, hnumber] using hrange
    obtain ⟨-, k, hk, res', hres', hrecords', -, hnext⟩ :=
      returnsWindow_of_stopsLast hrange' hset' hret hstops
    rw [hanswer] at hres'
    cases hres'
    rw [hrecords] at hrecords'
    simp only [Option.some.injEq, Records.databaseOrSurDiagnostics.injEq] at hrecords'
    have hnext' : res.nextResultSetPosition = start + k := by
      simpa only [page, hint] using hnext
    have hframe : (present rep f (page req start number) out).frontend.sets = f.sets := by
      rw [present_eq hset']
      rfl
    obtain ⟨n, hlast, hrest⟩ := ih (by rw [hframe]; exact hset) (by omega)
    have hle : k ≤ number.toNat := by
      rw [windowOf, List.length_map, jobsOf] at hk
      have := length_jobs rep hrange'
      simp only [page, hnumber] at hk this
      omega
    refine ⟨k + n, by push_cast; omega, ?_⟩
    have hindex : (res.nextResultSetPosition - 1).toNat = (start - 1).toNat + k := by omega
    rw [hrest, mergedRecords_present hset', hindex, hrecords', List.map_take,
      windowOf_merged hint hnumber hrange hskip, List.take_take, Nat.min_eq_left hle,
      List.take_add, List.drop_drop]

/-- For a window inside the hits the response has its first records, if and only if no backend
stops short of a record before another's. A client that reads on from `nextResultSetPosition` gets
the merged order, which has every record once. -/
theorem present_merged (rep : Rep) (f : Frontend ρ) (req : PresentRequest)
    (out : BackendPtr → Outcome ρ) (fset : FrontendSet BackendPtr)
    (content : BackendPtr × Int → NamePlusRecord ρ) (returned : BackendPtr → Nat)
    (hset : f.sets.lookup req.resultSetId = some fset)
    (hrange : InRange fset (Util.toInt req.resultSetStartPoint)
      (Util.toInt req.numberOfRecordsRequested))
    (hret : ReturnsFirst rep f req fset content returned out) :
    (StopsLast rep fset req returned → ReturnsWindow rep f req fset content out) ∧
    (Function.Injective (tagged f content) → ReturnsWindow rep f req fset content out →
      StopsLast rep fset req returned) ∧
    (mergedOrder rep fset).Nodup ∧
    (∀ b pos, (b, pos) ∈ mergedOrder rep fset ↔
      ∃ bset ∈ fset.backendSets, bset.backend = b ∧ 1 ≤ pos ∧ (pos : Int) ≤ bset.count) ∧
    ∀ start records last, 1 ≤ start → ReadsOn rep req fset content f start records last →
      ∃ n : Nat, last = start + n ∧
        records = ((mergedRecords rep f fset content).drop (start - 1).toNat).take n :=
  ⟨returnsWindow_of_stopsLast hrange hset hret, stopsLast_of_returnsWindow hrange hset hret,
    nodup_mergedOrder rep fset, fun _ _ => mem_mergedOrder,
    fun _ _ _ hstart h => readsOn_merged h hset hstart⟩

/-! ## Two backends with two hits each -/

def twoEach : FrontendSet BackendPtr where
  setname := "1"
  backendSets := [⟨0, 2⟩, ⟨1, 2⟩]
  distinct := by decide

def twoOpen : Frontend (BackendPtr × Int) where
  isMulti := true
  backendList := [0, 1]
  distinct := searched.distinct
  backends b := ⟨if b = 0 then "a" else "b", "", "", false, some (.search ⟨2, 0, 0, none⟩)⟩
  sets := AList.singleton "1" twoEach

def firstFour : PresentRequest := ⟨"1", 1, 4, none, none⟩

/-- A record that says where it is from. -/
def sourceRecord (e : BackendPtr × Int) : NamePlusRecord (BackendPtr × Int) := ⟨none, e⟩

/-- The backends return so many of the first records. -/
def returns (returned : BackendPtr → Nat) (b : BackendPtr) : Outcome (BackendPtr × Int) where
  closed := false
  response := some (.present
    ⟨returned b, 1 + returned b, .success, some (.databaseOrSurDiagnostics ⟨returned b,
      (List.range (returned b)).map fun i : Nat => sourceRecord (b, 1 + i)⟩), none⟩)

theorem returnsFirst_returns (returned : BackendPtr → Nat) :
    ReturnsFirst hidingRep twoOpen firstFour twoEach sourceRecord returned (returns returned) := by
  have hasks : asksOf hidingRep twoEach firstFour = [⟨0, 1, 2⟩, ⟨1, 1, 2⟩] := by decide
  rw [ReturnsFirst, hasks]
  intro a ha
  have hstart : a.start = 1 := by
    simp only [List.mem_cons, List.not_mem_nil, or_false] at ha
    rcases ha with rfl | rfl <;> rfl
  refine ⟨rfl, rfl, _, rfl, .inl ?_⟩
  rw [hstart]

theorem inRange_firstFour : InRange twoEach (Util.toInt firstFour.resultSetStartPoint)
    (Util.toInt firstFour.numberOfRecordsRequested) where
  counted := by
    unfold Counted
    decide
  one_le := by decide
  nonneg := by decide
  last_le := by decide

/-- The second backend stops short of the last record. -/
theorem present_merged_three : ReturnsWindow hidingRep twoOpen firstFour twoEach sourceRecord
    (returns fun b => if b = 0 then 2 else 1) :=
  (present_merged hidingRep twoOpen firstFour (returns fun b => if b = 0 then 2 else 1) twoEach
    sourceRecord (fun b => if b = 0 then 2 else 1) rfl inRange_firstFour
    (returnsFirst_returns _)).1 (by
      unfold StopsLast
      decide)

/-- The first backend returns one of its two records: the response has records 1, 3 and 4 of the
window, and the client reads on at 4. -/
theorem shortFirst_shifts : ¬ ReturnsWindow hidingRep twoOpen firstFour twoEach sourceRecord
    (returns fun b => if b = 0 then 1 else 2) := by
  intro h
  have hinj : Function.Injective (tagged twoOpen sourceRecord) :=
    fun _ _ heq => congrArg NamePlusRecord.record heq
  have hstops := stopsLast_of_returnsWindow inRange_firstFour rfl (returnsFirst_returns _) hinj h
  revert hstops
  unfold StopsLast
  decide

end Multi
end Metaproxy
