import Metaproxy.SRUtoZ3950.Bounds

/-!
# SRUtoZ3950.Window

The window that a client asks for, and the one that is asked of the target. `startRecord` and
`maximumRecords` are of 64 bits, and `z3950_present_request` takes them into an `int` each.

* `presentLoop_asks` — what is asked for, in a loop that does not leave the `int`s.
* `presentRecords_asksWindow_iff` — when it is the window of the client.
-/

namespace Metaproxy
namespace SRUtoZ3950

open Z3950

variable {impl : Impl} {req : SearchRetrieveRequest} {start maxRecs num s e : Int}

/-! ## The window of the client -/

def startRecord (req : SearchRetrieveRequest) : Int := req.startRecord.getD 1

def maximumRecords (req : SearchRetrieveRequest) : Int := req.maximumRecords.getD 0

/-- The maximum of the configuration, if there is one. -/
def cut (impl : Impl) (m : Int) : Int :=
  if impl.confMaxRecs > 0 ∧ m > impl.confMaxRecs then impl.confMaxRecs else m

/-- A present request for the positions from `p` to `e`. -/
def Asks (p e : Int) (f : Forwarded) : Prop :=
  ∃ pr : PresentRequest, f.sent = .present pr ∧ pr.resultSetStartPoint = p ∧
    p + pr.numberOfRecordsRequested - 1 = e

/-- All positions from `s` to `e` at first, and then those that are missing at the end. -/
structure AsksAll (s e : Int) (fs : List Forwarded) : Prop where
  first : ∃ f ∈ fs.head?, Asks s e f
  rest : ∀ f ∈ fs, ∃ p, s ≤ p ∧ p ≤ e ∧ Asks p e f

/-- What is to come of a request for `m` records from position `s` on, of `n`. -/
structure AsksWindow (s m n : Int) (res : SearchRetrieveResponse)
    (p : List Forwarded × SearchRetrieveResponse) : Prop where
  nothing : m = 0 → p = ([], res)
  negative : m < 0 → p.1 = [] ∧ ∃ ds, p.2.diagnostics = res.diagnostics ++ ds ∧
    Diagnostic.unsuppParameterValue "maximumRecords" ∈ ds
  outside : 0 < m → (s < 1 ∨ n < s) →
    p = ([], { res with diagnostics := res.diagnostics ++ [.firstRecordPositionOutOfRange] })
  inside : 0 < m → 1 ≤ s → s ≤ n → AsksAll s (min (s + m - 1) n) p.1

/-- Neither an XPath, nor a time to live, nor sort keys. -/
structure Plain (req : SearchRetrieveRequest) : Prop where
  recordXPath : req.recordXPath = none
  resultSetTTL : req.resultSetTTL = none
  sorted : req.sorted = false

theorem Plain.windowDiagnostics (h : Plain req) (n : Int) : windowDiagnostics req n =
    (if (window req).start < 0 ∨ (window req).start > n then [.firstRecordPositionOutOfRange]
      else []) ++
    (if (window req).maxRecs < 0 then [.unsuppParameterValue "maximumRecords"] else []) := by
  obtain ⟨hxpath, httl, hsorted⟩ := h
  simp only [SRUtoZ3950.windowDiagnostics, hxpath, httl, hsorted, Option.isSome_none,
    Bool.false_eq_true, if_false, List.nil_append]

theorem window_start (req : SearchRetrieveRequest) :
    (window req).start = Util.toInt (startRecord req) := rfl

theorem window_maxRecs (req : SearchRetrieveRequest) :
    (window req).maxRecs = Util.toInt (maximumRecords req) := rfl

theorem cut_le (impl : Impl) (m : Int) : cut impl m ≤ m := by
  rw [cut]
  split <;> omega

theorem cut_eq_zero_iff {m : Int} : cut impl m = 0 ↔ m = 0 := by
  rw [cut]
  split <;> omega

theorem cut_neg_iff {m : Int} : cut impl m < 0 ↔ m < 0 := by
  rw [cut]
  split <;> omega

theorem cut_pos_iff {m : Int} : 0 < cut impl m ↔ 0 < m := by
  rw [cut]
  split <;> omega

/-- `max_recs` is the maximum, or what there is from the start on. -/
theorem cutRecs_eq {n : Int} (impl : Impl) (h : Presents req n) : cutRecs impl (window req) n =
    min (cut impl (Util.toInt (maximumRecords req))) (n - (window req).start + 1) := by
  obtain ⟨hstart, hlast, hmax⟩ := h.range
  have hint : (window req).maxRecs < 2147483648 := Util.toInt_lt _
  have hle := cut_le impl (window req).maxRecs
  have hcut : (if impl.confMaxRecs > 0 ∧ (window req).maxRecs > impl.confMaxRecs then
      impl.confMaxRecs else (window req).maxRecs) = cut impl (window req).maxRecs := rfl
  rw [cutRecs, ← window_maxRecs]
  simp only [hcut]
  split
  · rw [Util.toInt_eq (by omega) (by omega)]
    omega
  · omega

/-! ## The loop -/

/-- `num_records` counts the elements of what has been decoded. -/
def Counted (a : Answer) : Prop :=
  ∀ nprl, goesOn a = some nprl → nprl.numRecords = nprl.records.length

theorem asks_sentFor {a : Answer} (hlo : -2147483648 ≤ start + num)
    (hhi : start + num < 2147483648) :
    Asks (start + num) (start + maxRecs - 1) (sentFor req start maxRecs num a) := by
  refine ⟨_, rfl, Util.toInt_eq hlo hhi, ?_⟩
  simp only [presentRequest]
  omega

theorem presentLoop_asks {answers : List Answer} (hcounted : ∀ a ∈ answers, Counted a)
    (hstart : 0 ≤ start) (hnum : 0 ≤ num) (hint : start + maxRecs ≤ 2147483648) {l : Loop}
    (h : presentLoop req start maxRecs answers num = some l) :
    ∀ f ∈ l.forwarded, ∃ p, start + num ≤ p ∧ p ≤ start + maxRecs - 1 ∧
      Asks p (start + maxRecs - 1) f := by
  induction answers generalizing num l with
  | nil =>
    by_cases hlt : num < maxRecs
    · rw [presentLoop, if_pos hlt] at h
      cases h
    · rw [presentLoop_done hlt] at h
      cases h
      intro f hf
      cases hf
  | cons a answers ih =>
    by_cases hlt : num < maxRecs
    · have hasks : Asks (start + num) (start + maxRecs - 1) (sentFor req start maxRecs num a) :=
        asks_sentFor (by omega) (by omega)
      cases ha : goesOn a with
      | none =>
        rw [presentLoop_none hlt ha] at h
        cases h
        intro f hf
        obtain rfl := List.mem_singleton.mp hf
        exact ⟨_, Int.le_refl _, by omega, hasks⟩
      | some nprl =>
        have hlen := hcounted a List.mem_cons_self nprl ha
        rw [presentLoop_some hlt ha] at h
        obtain ⟨l', hl', rfl⟩ := Option.map_eq_some_iff.mp h
        intro f hf
        rcases List.mem_cons.mp hf with rfl | hf
        · exact ⟨_, Int.le_refl _, by omega, hasks⟩
        · obtain ⟨p, hlo, hhi, hp⟩ := ih (fun b hb => hcounted b (List.mem_cons_of_mem _ hb))
            (by omega) hl' f hf
          exact ⟨p, by omega, hhi, hp⟩
    · rw [presentLoop_done hlt] at h
      cases h
      intro f hf
      cases hf

theorem presentLoop_head {answers : List Answer} (hlt : num < maxRecs) {l : Loop}
    (h : presentLoop req start maxRecs answers num = some l) :
    ∃ a, l.forwarded.head? = some (sentFor req start maxRecs num a) := by
  cases answers with
  | nil =>
    rw [presentLoop, if_pos hlt] at h
    cases h
  | cons a answers =>
    refine ⟨a, ?_⟩
    cases ha : goesOn a with
    | none =>
      rw [presentLoop_none hlt ha] at h
      cases h
      rfl
    | some nprl =>
      rw [presentLoop_some hlt ha] at h
      obtain ⟨l', -, rfl⟩ := Option.map_eq_some_iff.mp h
      rfl

/-! ## The response -/

section Response

variable {n : Int} {res : SearchRetrieveResponse} {answers : List Answer}
  {p : List Forwarded × SearchRetrieveResponse}

theorem Plain.presents_iff (h : Plain req) : Presents req n ↔
    0 ≤ Util.toInt (startRecord req) ∧ Util.toInt (startRecord req) ≤ n ∧
      0 < Util.toInt (maximumRecords req) := by
  constructor
  · exact fun hpresents => hpresents.range
  · rintro ⟨hstart, hlast, hmax⟩
    refine ⟨?_, ?_⟩
    · rw [window_maxRecs]
      omega
    · rw [h.windowDiagnostics, window_start, window_maxRecs, if_neg (by omega), if_neg (by omega)]
      rfl

theorem presentRecords_of_zero (h : Util.toInt (maximumRecords req) = 0) :
    presentRecords impl req res n answers = some ([], res) := by
  rw [presentRecords]
  simp only [window_maxRecs, h, if_true]

theorem presentRecords_of_diagnostics (hwanted : Util.toInt (maximumRecords req) ≠ 0)
    (h : ¬ Presents req n) : presentRecords impl req res n answers =
      some ([], { res with diagnostics := res.diagnostics ++ windowDiagnostics req n }) := by
  have hdiagnostics : windowDiagnostics req n ≠ [] := fun hnil => h ⟨hwanted, hnil⟩
  rw [presentRecords]
  simp only [window_maxRecs, hwanted, if_false, ne_eq, hdiagnostics, not_false_eq_true, if_true]

/-- No response. -/
def noResponse : Answer := ⟨false, none⟩

theorem counted_of_none {a : Answer} (h : goesOn a = none) : Counted a := by
  intro nprl hnprl
  rw [h] at hnprl
  cases hnprl

theorem presentRecords_of_presents (h : Presents req n)
    (hp : presentRecords impl req res n answers = some p) :
    ∃ l, presentLoop req (window req).start (cutRecs impl (window req) n) answers 0 = some l ∧
      p.1 = l.forwarded := by
  rw [h.eq] at hp
  obtain ⟨l, hl, rfl⟩ := Option.map_eq_some_iff.mp hp
  exact ⟨l, hl, rfl⟩

theorem presentRecords_noResponse (impl : Impl) (res : SearchRetrieveResponse) (h : Presents req n) :
    ∃ p, presentRecords impl req res n [noResponse] = some p ∧
      p.1 = [sentFor req (window req).start (cutRecs impl (window req) n) 0 noResponse] := by
  rw [h.eq, presentLoop_none (h.cutRecs_range impl).1 rfl, Option.map_some]
  exact ⟨_, rfl, rfl⟩

/-- The target sends all records up to a position, and then nothing. -/
theorem presentRecords_part (impl : Impl) (res : SearchRetrieveResponse) (h : Presents req n)
    {k : Nat}
    (hlt : (k : Int) < cutRecs impl (window req) n) :
    ∃ p, presentRecords impl req res n [recordsAnswer k, noResponse] = some p ∧
      sentFor req (window req).start (cutRecs impl (window req) n) k noResponse ∈ p.1 := by
  have hgoes : goesOn (recordsAnswer k) = some ⟨k, List.replicate k anyRecord⟩ := rfl
  rw [h.eq, presentLoop_some (h.cutRecs_range impl).1 hgoes, Int.zero_add,
    presentLoop_none hlt rfl, Option.map_some, Option.map_some]
  exact ⟨_, rfl, List.mem_cons_of_mem _ (List.mem_singleton_self _)⟩

/-- As `int`s the values of the client make for the same case, and for the same window in it. -/
structure Kept (impl : Impl) (req : SearchRetrieveRequest) (n : Int) : Prop where
  negative : maximumRecords req < 0 → Util.toInt (maximumRecords req) < 0
  positive : 0 < maximumRecords req → 0 < Util.toInt (maximumRecords req)
  outside : 0 < maximumRecords req → startRecord req < 1 ∨ n < startRecord req →
    Util.toInt (startRecord req) < 0 ∨ n < Util.toInt (startRecord req)
  number : 0 < maximumRecords req → 1 ≤ startRecord req → startRecord req ≤ n →
    min (cut impl (Util.toInt (maximumRecords req))) (n - startRecord req + 1) =
      min (cut impl (maximumRecords req)) (n - startRecord req + 1)
  last : 0 < maximumRecords req → 1 ≤ startRecord req → startRecord req ≤ n →
    min (startRecord req + cut impl (maximumRecords req) - 1) n < 2147483648

theorem Kept.asksWindow (hplain : Plain req) (h : Kept impl req n)
    (hcounted : ∀ a ∈ answers, Counted a)
    (hp : presentRecords impl req res n answers = some p) :
    AsksWindow (startRecord req) (cut impl (maximumRecords req)) n res p := by
  refine ⟨?_, ?_, ?_, ?_⟩
  · intro hzero
    rw [presentRecords_of_zero (by rw [cut_eq_zero_iff.mp hzero]; rfl)] at hp
    exact (Option.some.inj hp).symm
  · intro hneg
    have hint := h.negative (cut_neg_iff.mp hneg)
    have hnot : ¬ Presents req n := by
      rw [hplain.presents_iff]
      omega
    rw [presentRecords_of_diagnostics (by omega) hnot, hplain.windowDiagnostics, window_maxRecs,
      if_pos hint] at hp
    obtain rfl := Option.some.inj hp
    exact ⟨rfl, _, rfl, List.mem_append_right _ (List.mem_singleton_self _)⟩
  · intro hpos hout
    have hint := h.positive (cut_pos_iff.mp hpos)
    have hstart := h.outside (cut_pos_iff.mp hpos) hout
    have hnot : ¬ Presents req n := by
      rw [hplain.presents_iff]
      omega
    rw [presentRecords_of_diagnostics (by omega) hnot, hplain.windowDiagnostics, window_maxRecs,
      window_start, if_pos hstart, if_neg (by omega)] at hp
    exact (Option.some.inj hp).symm
  · intro hpos hlo hhi
    have hpos' := cut_pos_iff.mp hpos
    have hint := h.positive hpos'
    have hnumber := h.number hpos' hlo hhi
    have hlast := h.last hpos' hlo hhi
    have hstart : Util.toInt (startRecord req) = startRecord req :=
      Util.toInt_eq (by omega) (by omega)
    have hpresents : Presents req n := hplain.presents_iff.mpr (by omega)
    have hrecs := cutRecs_eq impl hpresents
    rw [window_start, hstart, hnumber] at hrecs
    obtain ⟨l, hl, hforwarded⟩ := presentRecords_of_presents hpresents hp
    have hsum : startRecord req + cutRecs impl (window req) n - 1 =
        min (startRecord req + cut impl (maximumRecords req) - 1) n := by omega
    rw [window_start, hstart] at hl
    rw [hforwarded, ← hsum]
    refine ⟨?_, fun f hf => ?_⟩
    · obtain ⟨a, ha⟩ := presentLoop_head (by omega) hl
      refine ⟨_, ha, ?_⟩
      have hasks : Asks (startRecord req + 0)
          (startRecord req + cutRecs impl (window req) n - 1) (sentFor req _ _ 0 a) :=
        asks_sentFor (by omega) (by omega)
      rw [Int.add_zero] at hasks
      exact hasks
    · obtain ⟨p, hplo, hphi, hasks⟩ :=
        presentLoop_asks hcounted (by omega) (Int.le_refl 0) (by omega) hl f hf
      exact ⟨p, by omega, hphi, hasks⟩

/-- The window is that of the client, whatever the target answers. -/
def AsksExactly (impl : Impl) (req : SearchRetrieveRequest) (n : Int)
    (res : SearchRetrieveResponse) : Prop :=
  ∀ answers p, (∀ a ∈ answers, Counted a) → presentRecords impl req res n answers = some p →
    AsksWindow (startRecord req) (cut impl (maximumRecords req)) n res p

theorem AsksExactly.of_diagnostics (hasks : AsksExactly impl req n res)
    (hint : Util.toInt (maximumRecords req) ≠ 0) (h : ¬ Presents req n) :
    AsksWindow (startRecord req) (cut impl (maximumRecords req)) n res
      ([], { res with diagnostics := res.diagnostics ++ windowDiagnostics req n }) :=
  hasks [] _ (fun a ha => by cases ha) (presentRecords_of_diagnostics hint h)

/-- A single request, when the target does not respond. -/
theorem AsksExactly.of_noResponse (hasks : AsksExactly impl req n res) (h : Presents req n) :
    ∃ p, p.1 = [sentFor req (window req).start (cutRecs impl (window req) n) 0 noResponse] ∧
      AsksWindow (startRecord req) (cut impl (maximumRecords req)) n res p := by
  obtain ⟨p, hp, hsent⟩ := presentRecords_noResponse impl res h
  refine ⟨p, hsent, hasks [noResponse] p (fun a ha => ?_) hp⟩
  rw [List.mem_singleton.mp ha]
  exact counted_of_none rfl

theorem AsksWindow.not_nil {s m n : Int} {res' : SearchRetrieveResponse}
    (h : AsksWindow s m n res ([], res')) (hpos : 0 < m) (hlo : 1 ≤ s) (hhi : s ≤ n) : False := by
  obtain ⟨f, hf, -⟩ := (h.inside hpos hlo hhi).first
  cases hf

theorem AsksExactly.eq_zero (hasks : AsksExactly impl req n res)
    (hint : Util.toInt (maximumRecords req) = 0) : maximumRecords req = 0 := by
  have hwindow := hasks [] _ (fun a ha => by cases ha) (presentRecords_of_zero hint)
  rcases lt_trichotomy (maximumRecords req) 0 with hneg | hzero | hpos
  · obtain ⟨-, ds, hds, hmem⟩ := hwindow.negative (cut_neg_iff.mpr hneg)
    rw [List.self_eq_append_right.mp hds] at hmem
    cases hmem
  · exact hzero
  · by_cases hout : startRecord req < 1 ∨ n < startRecord req
    · have heq := hwindow.outside (cut_pos_iff.mpr hpos) hout
      have hds := congrArg (fun p => p.2.diagnostics) heq
      cases List.self_eq_append_right.mp hds
    · exact (hwindow.not_nil (cut_pos_iff.mpr hpos) (by omega) (by omega)).elim

theorem AsksExactly.lt_zero (hasks : AsksExactly impl req n res) (hplain : Plain req)
    (hint : Util.toInt (maximumRecords req) < 0) : maximumRecords req < 0 := by
  have hnot : ¬ Presents req n := by
    rw [hplain.presents_iff]
    omega
  have hwindow := hasks.of_diagnostics (by omega) hnot
  have hmem : Diagnostic.unsuppParameterValue "maximumRecords" ∈ windowDiagnostics req n := by
    rw [hplain.windowDiagnostics, window_maxRecs, if_pos hint]
    exact List.mem_append_right _ (List.mem_singleton_self _)
  rcases lt_trichotomy (maximumRecords req) 0 with hneg | hzero | hpos
  · exact hneg
  · have hds := congrArg (fun p => p.2.diagnostics) (hwindow.nothing (cut_eq_zero_iff.mpr hzero))
    rw [List.append_right_eq_self.mp hds] at hmem
    cases hmem
  · by_cases hout : startRecord req < 1 ∨ n < startRecord req
    · have heq := hwindow.outside (cut_pos_iff.mpr hpos) hout
      have hds := congrArg (fun p => p.2.diagnostics) heq
      rw [List.append_cancel_left hds] at hmem
      cases List.mem_singleton.mp hmem
    · exact (hwindow.not_nil (cut_pos_iff.mpr hpos) (by omega) (by omega)).elim

theorem AsksExactly.positive (hasks : AsksExactly impl req n res) (hplain : Plain req)
    (hpos : 0 < maximumRecords req) : 0 < Util.toInt (maximumRecords req) := by
  have hzero := hasks.eq_zero
  have hneg := hasks.lt_zero hplain
  by_contra hint
  omega

theorem AsksExactly.presents (hasks : AsksExactly impl req n res) (hplain : Plain req)
    (hpos : 0 < maximumRecords req) (hlo : 1 ≤ startRecord req) (hhi : startRecord req ≤ n) :
    Presents req n := by
  by_contra hnot
  have hint := hasks.positive hplain hpos
  exact (hasks.of_diagnostics (by omega) hnot).not_nil (cut_pos_iff.mpr hpos) hlo hhi

theorem AsksExactly.inside_of_presents (hasks : AsksExactly impl req n res) (h : Presents req n)
    (hpos : 0 < maximumRecords req) : 1 ≤ startRecord req ∧ startRecord req ≤ n ∧
      Util.toInt (startRecord req) = startRecord req ∧ cutRecs impl (window req) n =
        min (cut impl (maximumRecords req)) (n - startRecord req + 1) := by
  obtain ⟨p, hsent, hwindow⟩ := hasks.of_noResponse h
  have hin : 1 ≤ startRecord req ∧ startRecord req ≤ n := by
    by_contra hout
    rw [hwindow.outside (cut_pos_iff.mpr hpos) (by omega)] at hsent
    cases hsent
  obtain ⟨f, hf, pr, hpr, hstart, hlast⟩ :=
    (hwindow.inside (cut_pos_iff.mpr hpos) hin.1 hin.2).first
  rw [hsent] at hf
  obtain rfl := Option.some.inj hf
  cases hpr
  simp only [presentRequest, Int.add_zero, Int.sub_zero, window_start] at hstart hlast
  have hnarrow : Util.toInt (Util.toInt (startRecord req)) = Util.toInt (startRecord req) :=
    Util.toInt_eq (Util.le_toInt _) (Util.toInt_lt _)
  rw [hnarrow] at hstart
  exact ⟨hin.1, hin.2, hstart, by omega⟩

theorem AsksExactly.number (hasks : AsksExactly impl req n res) (hplain : Plain req)
    (hpos : 0 < maximumRecords req) (hlo : 1 ≤ startRecord req) (hhi : startRecord req ≤ n) :
    min (cut impl (Util.toInt (maximumRecords req))) (n - startRecord req + 1) =
      min (cut impl (maximumRecords req)) (n - startRecord req + 1) := by
  have h := hasks.presents hplain hpos hlo hhi
  obtain ⟨-, -, hstart, hrecs⟩ := hasks.inside_of_presents h hpos
  rw [cutRecs_eq impl h, window_start, hstart] at hrecs
  exact hrecs

theorem AsksExactly.negative (hasks : AsksExactly impl req n res) (hplain : Plain req)
    (hneg : maximumRecords req < 0) : Util.toInt (maximumRecords req) < 0 := by
  by_contra hint
  have hzero := hasks.eq_zero
  by_cases h : Presents req n
  · obtain ⟨p, hsent, hwindow⟩ := hasks.of_noResponse h
    rw [(hwindow.negative (cut_neg_iff.mpr hneg)).1] at hsent
    cases hsent
  · obtain ⟨-, ds, hds, hmem⟩ :=
      (hasks.of_diagnostics (by omega) h).negative (cut_neg_iff.mpr hneg)
    -- the only diagnostic is the other one
    rw [← List.append_cancel_left hds, hplain.windowDiagnostics, window_maxRecs, if_neg hint,
      List.append_nil] at hmem
    split at hmem
    · cases List.mem_singleton.mp hmem
    · cases hmem

theorem AsksExactly.outside (hasks : AsksExactly impl req n res) (hplain : Plain req)
    (hpos : 0 < maximumRecords req) (hout : startRecord req < 1 ∨ n < startRecord req) :
    Util.toInt (startRecord req) < 0 ∨ n < Util.toInt (startRecord req) := by
  by_contra hin
  have hint := hasks.positive hplain hpos
  have h : Presents req n := hplain.presents_iff.mpr (by omega)
  have hinside := hasks.inside_of_presents h hpos
  omega

theorem counted_part (k : Nat) : ∀ a ∈ [recordsAnswer k, noResponse], Counted a := by
  intro a ha
  rcases List.mem_cons.mp ha with rfl | ha
  · intro nprl hnprl
    obtain rfl := Option.some.inj hnprl
    exact congrArg Int.ofNat List.length_replicate.symm
  · rw [List.mem_singleton.mp ha]
    exact counted_of_none rfl

/-- Otherwise a target that sends the records up to the largest `int` is asked for a position that
is none. -/
theorem AsksExactly.last (hasks : AsksExactly impl req n res) (hplain : Plain req)
    (hpos : 0 < maximumRecords req) (hlo : 1 ≤ startRecord req) (hhi : startRecord req ≤ n) :
    min (startRecord req + cut impl (maximumRecords req) - 1) n < 2147483648 := by
  by_contra hlarge
  have h := hasks.presents hplain hpos hlo hhi
  obtain ⟨-, -, hstart, hrecs⟩ := hasks.inside_of_presents h hpos
  have hint : Util.toInt (startRecord req) < 2147483648 := Util.toInt_lt _
  obtain ⟨k, hk⟩ : ∃ k : Nat, startRecord req + k = 2147483648 :=
    ⟨(2147483648 - startRecord req).toNat, by omega⟩
  obtain ⟨p, hp, hmem⟩ := presentRecords_part impl res h (show (k : Int) < _ by omega)
  have hwindow := hasks _ p (counted_part k) hp
  obtain ⟨q, hq, -, pr, hpr, hpoint, -⟩ :=
    (hwindow.inside (cut_pos_iff.mpr hpos) hlo hhi).rest _ hmem
  cases hpr
  rw [presentRequest] at hpoint
  simp only [window_start, hstart, hk] at hpoint
  rw [Util.toInt_eq_sub (by omega) (by omega)] at hpoint
  omega

theorem AsksExactly.kept (hasks : AsksExactly impl req n res) (hplain : Plain req) :
    Kept impl req n where
  negative := hasks.negative hplain
  positive := hasks.positive hplain
  outside := hasks.outside hplain
  number := hasks.number hplain
  last := hasks.last hplain

/-- For every request without an XPath, a time to live and sort keys, every maximum and number of
hits: what is asked of the target is the window of the client, whatever the target answers, if and
only if the client's values make for the same case and window as `int`s, and the last position of
the window is one. -/
theorem presentRecords_asksWindow_iff (hplain : Plain req) :
    AsksExactly impl req n res ↔ Kept impl req n :=
  ⟨fun hasks => hasks.kept hplain, fun h _ _ hcounted hp => h.asksWindow hplain hcounted hp⟩

end Response

/-! ## Three hits -/

def asksFrom (startRecord maximumRecords : Int) : SearchRetrieveRequest :=
  { asksFor maximumRecords with startRecord := some startRecord }

theorem plain_asksFrom (startRecord maximumRecords : Int) :
    Plain (asksFrom startRecord maximumRecords) := ⟨rfl, rfl, rfl⟩

theorem presentRecords_asksWindow_two : AsksExactly unlimited (asksFrom 2 5) 3 (found [] 3) :=
  (presentRecords_asksWindow_iff (plain_asksFrom 2 5)).mpr
    ⟨by decide, by decide, by decide, by decide, by decide⟩

/-- Position 0 is asked for, and of 2^32 records none is. -/
theorem presentRecords_not_asksWindow :
    (presentRecords unlimited (asksFrom 0 1) (found [] 3) 3 [noResponse]).map Prod.fst =
        some [⟨.present (presentRequest (asksFrom 0 1) 0 1 0), false⟩] ∧
      ¬ AsksExactly unlimited (asksFrom 0 1) 3 (found [] 3) ∧
    presentRecords unlimited (asksFrom 1 4294967296) (found [] 3) 3 [] = some ([], found [] 3) ∧
      ¬ AsksExactly unlimited (asksFrom 1 4294967296) 3 (found [] 3) := by
  refine ⟨by decide, ?_, by decide, ?_⟩
  · intro h
    exact absurd ((h.kept (plain_asksFrom 0 1)).outside (by decide) (by decide)) (by decide)
  · intro h
    exact absurd ((h.kept (plain_asksFrom 1 4294967296)).positive (by decide)) (by decide)

end SRUtoZ3950
end Metaproxy
