import Metaproxy.Multi.Jobs

/-!
# Multi.Answered

What `Frontend::present` reads of the responses of the backends.

* `look_eq` — what the loop over the responses finds.
* `present_answered` — only members of responses to this request are read, and only records that
  are there, if and only if no backend is left with an old response and, when the records are
  assembled, every backend of a job has answered.
* `close_read` — the response of a backend that has closed is read as a present response.
-/

namespace Metaproxy
namespace Multi

open Lib Z3950

variable {ρ : Type*}

/-! ## The responses -/

@[simp] theorem response_multiMove (f : Frontend ρ) (blist : List BackendPtr)
    (out : BackendPtr → Outcome ρ) (b : BackendPtr) :
    (f.multiMove blist out).response b =
      if b ∈ blist then (out b).response.or (f.response b) else f.response b := by
  simp only [Frontend.response, Frontend.multiMove]
  split_ifs <;> rfl

@[simp] theorem isClosed_multiMove (f : Frontend ρ) (blist : List BackendPtr)
    (out : BackendPtr → Outcome ρ) (b : BackendPtr) :
    (f.multiMove blist out).isClosed b =
      if b ∈ blist then f.isClosed b || (out b).closed else f.isClosed b := by
  simp only [Frontend.isClosed, Frontend.multiMove]
  split_ifs <;> rfl

@[simp] theorem vhost_multiMove (f : Frontend ρ) (blist : List BackendPtr)
    (out : BackendPtr → Outcome ρ) (b : BackendPtr) :
    ((f.multiMove blist out).backends b).vhost = (f.backends b).vhost := by
  simp only [Frontend.multiMove]
  split_ifs <;> rfl

/-- The diagnostics of a response. -/
def diagnosticsOf {α : Type*} : Option (Records α) → List DiagRec
  | some (.nonSurrogateDiagnostic d) => [.defaultFormat d]
  | some (.multipleNonSurDiagnostics dr) => dr
  | _ => []

/-- A response fails with diagnostics, even if there are none in the list. -/
def fails {α : Type*} : Option (Records α) → Bool
  | some (.nonSurrogateDiagnostic _) => true
  | some (.multipleNonSurDiagnostics _) => true
  | _ => false

/-- A package with a response of the right type that fails. -/
def Frontend.fails {α : Type*} (f : Frontend ρ) (records : Gdu ρ → Option (Option (Records α)))
    (b : BackendPtr) : Bool :=
  ((f.response b).bind records).any Multi.fails

/-- A package with a response of the right type that does not. -/
def Frontend.succeeds {α : Type*} (f : Frontend ρ) (records : Gdu ρ → Option (Option (Records α)))
    (b : BackendPtr) : Bool :=
  ((f.response b).bind records).any fun r => !Multi.fails r

def Frontend.diagnostics {α : Type*} (f : Frontend ρ)
    (records : Gdu ρ → Option (Option (Records α))) (b : BackendPtr) : List DiagRec :=
  diagnosticsOf (((f.response b).bind records).getD none)

theorem recordDiagnostics_eq {α : Type*} (records : Option (Records α)) (g : Found) :
    recordDiagnostics records g =
      if fails records then { g with zDiag := some (g.zDiag.getD [] ++ diagnosticsOf records) }
      else { g with noSuccessful := g.noSuccessful + 1 } := by
  rcases records with _ | (_ | _ | _) <;> rfl

theorem look_concat {α : Type*} (records : Gdu ρ → Option (Option (Records α))) (f : Frontend ρ)
    (blist : List BackendPtr) (b : BackendPtr) :
    look records f (blist ++ [b]) =
      let g := look records f blist
      let g := if f.isClosed b then { g with closeP := some b } else g
      match (f.response b).bind records with
      | some r => recordDiagnostics r g
      | none => g := by
  rw [look, List.foldl_append]
  rfl

theorem diagnosticsOf_eq_nil {α : Type*} {r : Option (Records α)} (h : fails r = false) :
    diagnosticsOf r = [] := by
  rcases r with _ | (_ | _ | _)
  · rfl
  · rfl
  · cases h
  · cases h

theorem Frontend.diagnostics_eq_nil {α : Type*} {f : Frontend ρ}
    {records : Gdu ρ → Option (Option (Records α))} {b : BackendPtr}
    (h : f.fails records b = false) : f.diagnostics records b = [] := by
  rw [Frontend.fails] at h
  rw [Frontend.diagnostics]
  cases hr : (f.response b).bind records with
  | none => rfl
  | some r =>
    rw [hr] at h
    exact diagnosticsOf_eq_nil h

/-- What the loop over the responses finds. -/
theorem look_eq {α : Type*} (records : Gdu ρ → Option (Option (Records α))) (f : Frontend ρ)
    (blist : List BackendPtr) :
    look records f blist =
      { closeP := (blist.filter f.isClosed).getLast?
        zDiag :=
          if blist.any (f.fails records) then some (blist.flatMap (f.diagnostics records)) else none
        noSuccessful := blist.countP (f.succeeds records) } := by
  induction blist using List.reverseRecOn with
  | nil => rfl
  | append_singleton blist b ih =>
    have hclose : ((blist ++ [b]).filter f.isClosed).getLast? =
        if f.isClosed b then some b else (blist.filter f.isClosed).getLast? := by
      cases hc : f.isClosed b <;> simp [List.filter_append, hc]
    have hnone : blist.any (f.fails records) = false →
        blist.flatMap (f.diagnostics records) = [] := by
      intro hany
      refine List.flatMap_eq_nil_iff.mpr fun b hb => Frontend.diagnostics_eq_nil ?_
      simpa using List.any_eq_false.mp hany b hb
    rw [look_concat, ih, hclose, List.any_append, List.flatMap_append, List.countP_append]
    cases hr : (f.response b).bind records with
    | none =>
      have hf : f.fails records b = false := by simp [Frontend.fails, hr]
      have hs : f.succeeds records b = false := by simp [Frontend.succeeds, hr]
      have hd := Frontend.diagnostics_eq_nil hf
      cases f.isClosed b <;> simp [hf, hs, hd]
    | some r =>
      have hd : f.diagnostics records b = diagnosticsOf r := by simp [Frontend.diagnostics, hr]
      cases hfr : fails r with
      | false =>
        have hf : f.fails records b = false := by simp [Frontend.fails, hr, hfr]
        have hs : f.succeeds records b = true := by simp [Frontend.succeeds, hr, hfr]
        cases f.isClosed b <;> simp [recordDiagnostics_eq, hfr, hf, hs, hd, diagnosticsOf_eq_nil]
      | true =>
        have hf : f.fails records b = true := by simp [Frontend.fails, hr, hfr]
        have hs : f.succeeds records b = false := by simp [Frontend.succeeds, hr, hfr]
        cases hany : blist.any (f.fails records) with
        | false =>
          have hnil := hnone hany
          cases f.isClosed b <;> simp [recordDiagnostics_eq, hfr, hf, hs, hd, hnil]
        | true => cases f.isClosed b <;> simp [recordDiagnostics_eq, hfr, hf, hs, hd]

/-! ## A present request -/

section Present

variable {rep : Rep} {f : Frontend ρ} {req : PresentRequest} {out : BackendPtr → Outcome ρ}
  {fset : FrontendSet BackendPtr}

/-- The backends of the set that are asked have moved. -/
def presented (rep : Rep) (f : Frontend ρ) (req : PresentRequest) (out : BackendPtr → Outcome ρ)
    (fset : FrontendSet BackendPtr) : Frontend ρ :=
  f.multiMove ((asksOf rep fset req).map Ask.backend) out

def foundOf (rep : Rep) (f : Frontend ρ) (req : PresentRequest) (out : BackendPtr → Outcome ρ)
    (fset : FrontendSet BackendPtr) : Found :=
  look Gdu.presentRecords (presented rep f req out fset) ((asksOf rep fset req).map Ask.backend)

def decisionOf (rep : Rep) (f : Frontend ρ) (req : PresentRequest) (out : BackendPtr → Outcome ρ)
    (fset : FrontendSet BackendPtr) : Decision :=
  (foundOf rep f req out fset).decide rep.hideErrors (Util.toInt req.numberOfRecordsRequested)
    (jobsOf rep fset req).length

def placedOf (rep : Rep) (req : PresentRequest) (fset : FrontendSet BackendPtr) :
    List (PresentJob BackendPtr) :=
  (jobsOf rep fset req).map (place (jobsOf rep fset req))

/-- `present` for a set that exists, with its jobs and windows. -/
theorem present_eq (h : f.sets.lookup req.resultSetId = some fset) :
    present rep f req out =
      { frontend := presented rep f req out fset
        sent := (asksOf rep fset req).map fun a => (a.backend, .present (a.request req))
        read :=
          readResponses .present (presented rep f req out fset)
              ((asksOf rep fset req).map Ask.backend) ++
            if decisionOf rep f req out fset = .assemble then
              (placedOf rep req fset).flatMap (jobReads (presented rep f req out fset))
            else []
        closed := (decisionOf rep f req out fset matches .closed _)
        answer :=
          match decisionOf rep f req out fset with
          | .closed b => .response ((presented rep f req out fset).response b)
          | .diagnostics zDiag => presentDiagnostics zDiag
          | .outOfRange => .response (some (.present (.diagnostic .presentRequestOutOfRange [])))
          | .assemble =>
            presentRecords (Util.toInt req.resultSetStartPoint)
              (assemble (presented rep f req out fset) (placedOf rep req fset)) } := by
  have hplan := plan_jobsOf rep fset req
  rw [jobsOf] at hplan
  unfold present
  simp only [h, hplan, List.length_map]
  cases hd : decisionOf rep f req out fset
  all_goals
    have hd' := hd
    unfold decisionOf foundOf presented jobsOf at hd'
    simp only [hd']
    simp [presented, placedOf, jobsOf]

theorem present_none (h : f.sets.lookup req.resultSetId = none) :
    (present rep f req out).read = [] := by
  simp [present, h]

end Present

/-! ## What is read -/

section Outcomes

variable {α : Type*} (records : Gdu ρ → Option (Option (Records α)))

/-- The backend answers with diagnostics. -/
def Outcome.fails (o : Outcome ρ) : Bool := (o.response.bind records).any Multi.fails

/-- The backend answers without diagnostics. -/
def Outcome.succeeds (o : Outcome ρ) : Bool := (o.response.bind records).any fun r => !Multi.fails r

/-- A backend without an answer has no response of the type from an earlier request. -/
def Fresh (f : Frontend ρ) (out : BackendPtr → Outcome ρ) (b : BackendPtr) : Prop :=
  (out b).response = none → (f.response b).bind records = none

/-- A closed session or diagnostics are passed on to the client. -/
def Reported (hide : Bool) (f : Frontend ρ) (out : BackendPtr → Outcome ρ)
    (asked : BackendPtr → Prop) : Prop :=
  ((∃ b, asked b ∧ (f.isClosed b || (out b).closed) = true) ∨
    ∃ b, asked b ∧ (out b).fails records = true) ∧
  (hide = false ∨ ∀ b, asked b → (out b).succeeds records = false)

variable {records} {f : Frontend ρ} {out : BackendPtr → Outcome ρ} {blist : List BackendPtr}

theorem bind_multiMove {b : BackendPtr} (hb : b ∈ blist) (h : Fresh records f out b) :
    ((f.multiMove blist out).response b).bind records = (out b).response.bind records := by
  rw [response_multiMove, if_pos hb]
  cases hr : (out b).response with
  | none => simpa using h hr
  | some gdu => rfl

theorem fails_multiMove {b : BackendPtr} (hb : b ∈ blist) (h : Fresh records f out b) :
    (f.multiMove blist out).fails records b = (out b).fails records := by
  rw [Frontend.fails, bind_multiMove hb h, Outcome.fails]

theorem succeeds_multiMove {b : BackendPtr} (hb : b ∈ blist) (h : Fresh records f out b) :
    (f.multiMove blist out).succeeds records b = (out b).succeeds records := by
  rw [Frontend.succeeds, bind_multiMove hb h, Outcome.succeeds]

/-- What the loop finds, from the outcomes. -/
theorem look_reports (hide : Bool) (blist : List BackendPtr) (h : ∀ b ∈ blist, Fresh records f out b) :
    ((look records (f.multiMove blist out) blist).reports hide = true ∧
      ((look records (f.multiMove blist out) blist).closeP.isSome = true ∨
        (look records (f.multiMove blist out) blist).zDiag.isSome = true)) ↔
      Reported records hide f out (· ∈ blist) := by
  have hclose : ((blist.filter (f.multiMove blist out).isClosed).getLast?.isSome = true) ↔
      ∃ b, b ∈ blist ∧ (f.isClosed b || (out b).closed) = true := by
    rw [List.getLast?_isSome, ne_eq, List.filter_eq_nil_iff]
    simp only [not_forall, isClosed_multiMove, exists_prop, Bool.not_eq_true, Bool.not_eq_false]
    refine exists_congr fun b => and_congr_right fun hb => ?_
    rw [if_pos hb]
  have hfails : (blist.any ((f.multiMove blist out).fails records) = true) ↔
      ∃ b, b ∈ blist ∧ (out b).fails records = true := by
    rw [List.any_eq_true]
    refine exists_congr fun b => and_congr_right fun hb => ?_
    rw [fails_multiMove hb (h b hb)]
  have hsucceeds : blist.countP ((f.multiMove blist out).succeeds records) = 0 ↔
      ∀ b, b ∈ blist → (out b).succeeds records = false := by
    rw [List.countP_eq_zero]
    refine forall_congr' fun b => forall_congr' fun hb => ?_
    rw [succeeds_multiMove hb (h b hb), Bool.not_eq_true]
  rw [look_eq, Found.reports, Reported]
  simp only [hclose, Bool.or_eq_true, decide_eq_true_eq, hsucceeds, Bool.not_eq_eq_eq_not,
    Bool.not_true]
  rw [and_comm, or_comm (a := hide = false)]
  refine and_congr_left fun _ => or_congr_right ?_
  rw [← hfails]
  cases blist.any ((f.multiMove blist out).fails records) <;> simp

theorem Found.decide_eq_assemble {g : Found} {hideErrors : Bool} {number : Int} {jobs : Nat} :
    g.decide hideErrors number jobs = .assemble ↔
      ¬ (g.reports hideErrors = true ∧ (g.closeP.isSome = true ∨ g.zDiag.isSome = true)) ∧
        0 ≤ number ∧ number ≤ jobs := by
  unfold Found.decide Found.close Found.diagnostics
  cases g.reports hideErrors <;> cases g.closeP <;> cases g.zDiag <;> simp

theorem Found.decide_eq_outOfRange {g : Found} {hideErrors : Bool} {number : Int} {jobs : Nat} :
    g.decide hideErrors number jobs = .outOfRange ↔
      ¬ (g.reports hideErrors = true ∧ (g.closeP.isSome = true ∨ g.zDiag.isSome = true)) ∧
        (number < 0 ∨ jobs < number) := by
  unfold Found.decide Found.close Found.diagnostics
  cases g.reports hideErrors <;> cases g.closeP <;> cases g.zDiag <;>
    simp [or_iff_not_imp_left]

end Outcomes

/-- A member is read of a response of a backend that was asked, and has answered with a present
response; a record is read where there is one. -/
def Read.Answers (sent : List (BackendPtr × Request)) (out : BackendPtr → Outcome ρ) : Read → Prop
  | .response b service =>
    service = .present ∧ b ∈ sent.map Prod.fst ∧ ∃ res, (out b).response = some (.present res)
  | .record b k _ =>
    b ∈ sent.map Prod.fst ∧ ∃ res l, (out b).response = some (.present res) ∧
      res.records = some (.databaseOrSurDiagnostics l) ∧ 0 ≤ k ∧ k < l.numRecords

/-- A record that is read is written to the response. -/
def Read.isRecord : Read → Bool
  | .record _ _ _ => true
  | .response _ _ => false

structure ReadsAnswered (rep : Rep) (f : Frontend ρ) (req : PresentRequest)
    (out : BackendPtr → Outcome ρ) : Prop where
  read : ∀ x ∈ (present rep f req out).read, x.Answers (present rep f req out).sent out
  written : ∀ fset, f.sets.lookup req.resultSetId = some fset →
    (present rep f req out).read.countP Read.isRecord ≤ (jobsOf rep fset req).length

/-- No old response is left where a backend does not answer. When neither a close nor diagnostics
are passed on, every backend of a job has answered; one whose first position is -1 without
records. -/
structure AllAnswer (rep : Rep) (f : Frontend ρ) (req : PresentRequest)
    (out : BackendPtr → Outcome ρ) (fset : FrontendSet BackendPtr) : Prop where
  fresh : ∀ b, Asked (jobsOf rep fset req) b → Fresh Gdu.presentRecords f out b
  answered : ¬ Reported Gdu.presentRecords rep.hideErrors f out (Asked (jobsOf rep fset req)) →
    0 ≤ Util.toInt req.numberOfRecordsRequested →
    Util.toInt req.numberOfRecordsRequested ≤ (jobsOf rep fset req).length →
    ∀ j ∈ jobsOf rep fset req, Asked (jobsOf rep fset req) j.backend ∧
      ∃ res, (out j.backend).response = some (.present res) ∧
        (Overlooked (jobsOf rep fset req) j → ∀ l, res.records = some (.databaseOrSurDiagnostics l) →
          l.numRecords < 0)

section Present

variable {rep : Rep} {f : Frontend ρ} {req : PresentRequest} {out : BackendPtr → Outcome ρ}
  {fset : FrontendSet BackendPtr}

/-- What the loop over the responses finds is what the backends answer. -/
theorem presented_reports
    (h : ∀ b, Asked (jobsOf rep fset req) b → Fresh Gdu.presentRecords f out b) :
    ((foundOf rep f req out fset).reports rep.hideErrors = true ∧
      ((foundOf rep f req out fset).closeP.isSome = true ∨
        (foundOf rep f req out fset).zDiag.isSome = true)) ↔
      Reported Gdu.presentRecords rep.hideErrors f out (Asked (jobsOf rep fset req)) := by
  have hasked : (· ∈ (asksOf rep fset req).map Ask.backend) = Asked (jobsOf rep fset req) := by
    funext b
    exact propext mem_asked
  have hlook := look_reports rep.hideErrors ((asksOf rep fset req).map Ask.backend)
    fun b hb => h b (mem_asked.mp hb)
  rwa [hasked] at hlook

theorem decisionOf_eq_assemble
    (h : ∀ b, Asked (jobsOf rep fset req) b → Fresh Gdu.presentRecords f out b) :
    decisionOf rep f req out fset = .assemble ↔
      ¬ Reported Gdu.presentRecords rep.hideErrors f out (Asked (jobsOf rep fset req)) ∧
        0 ≤ Util.toInt req.numberOfRecordsRequested ∧
        Util.toInt req.numberOfRecordsRequested ≤ (jobsOf rep fset req).length := by
  rw [decisionOf, Found.decide_eq_assemble, presented_reports h]

theorem decisionOf_eq_outOfRange
    (h : ∀ b, Asked (jobsOf rep fset req) b → Fresh Gdu.presentRecords f out b) :
    decisionOf rep f req out fset = .outOfRange ↔
      ¬ Reported Gdu.presentRecords rep.hideErrors f out (Asked (jobsOf rep fset req)) ∧
        (Util.toInt req.numberOfRecordsRequested < 0 ∨
          (jobsOf rep fset req).length < Util.toInt req.numberOfRecordsRequested) := by
  rw [decisionOf, Found.decide_eq_outOfRange, presented_reports h]

theorem response_presented {b : BackendPtr} (h : Asked (jobsOf rep fset req) b) :
    (presented rep f req out fset).response b = (out b).response.or (f.response b) := by
  rw [presented, response_multiMove, if_pos (mem_asked.mpr h)]

theorem mem_readResponses {service : Service} {g : Frontend ρ} {blist : List BackendPtr}
    {x : Read} :
    x ∈ readResponses service g blist ↔
      ∃ b ∈ blist, (g.response b).bind Gdu.service = some service ∧ .response b service = x := by
  simp only [readResponses, List.mem_map, List.mem_filter, and_assoc, decide_eq_true_eq]

theorem service_present {r : Option (Gdu ρ)} :
    r.bind Gdu.service = some .present ↔ ∃ res, r = some (.present res) := by
  rcases r with _ | (_ | _ | _ | _ | _ | _) <;> simp [Gdu.service]

theorem isSome_presentRecords {r : Option (Gdu ρ)} :
    (r.bind Gdu.presentRecords).isSome = true ↔ ∃ res, r = some (.present res) := by
  rcases r with _ | (_ | _ | _ | _ | _ | _) <;> simp [Gdu.presentRecords]

theorem countP_isRecord_readResponses (service : Service) (g : Frontend ρ)
    (blist : List BackendPtr) : (readResponses service g blist).countP Read.isRecord = 0 := by
  rw [List.countP_eq_zero]
  intro x hx
  obtain ⟨b, -, -, rfl⟩ := mem_readResponses.mp hx
  exact Bool.false_ne_true

theorem countP_isRecord_jobReads (g : Frontend ρ) (j : PresentJob BackendPtr) :
    (jobReads g j).countP Read.isRecord ≤ 1 := by
  have hresponse : (Read.response j.backend .present).isRecord = false := rfl
  unfold jobReads
  rw [List.countP_cons_of_neg (by simp [hresponse])]
  split
  · split_ifs <;> simp [Read.isRecord]
  · simp

theorem countP_flatMap_le {α β : Type*} {p : β → Bool} {g : α → List β}
    (h : ∀ a, (g a).countP p ≤ 1) (l : List α) : (l.flatMap g).countP p ≤ l.length := by
  induction l with
  | nil => exact Nat.le_refl _
  | cons a l ih =>
    have := h a
    rw [List.flatMap_cons, List.countP_append, List.length_cons]
    omega

/-- A record is read inside the list when the position is not before it. -/
theorem mem_jobReads {g : Frontend ρ} {j : PresentJob BackendPtr} {x : Read} :
    x ∈ jobReads g j ↔ x = .response j.backend .present ∨
      ∃ res l, g.response j.backend = some (.present res) ∧
        res.records = some (.databaseOrSurDiagnostics l) ∧ j.insidePos < l.numRecords ∧
        x = .record j.backend j.insidePos l.numRecords := by
  rw [jobReads, List.mem_cons]
  refine or_congr_right ?_
  split
  · next l _ heq =>
    rw [heq]
    split_ifs with hlt
    · simp [hlt]
    · simp [hlt]
  · next hno =>
    simp only [List.not_mem_nil, false_iff]
    rintro ⟨⟨_, _, _, _, _⟩, l, hres, rfl, -⟩
    exact hno _ _ _ _ _ hres

theorem sent_present (h : f.sets.lookup req.resultSetId = some fset) (b : BackendPtr) :
    b ∈ (present rep f req out).sent.map Prod.fst ↔ Asked (jobsOf rep fset req) b := by
  rw [present_eq h]
  simp only [List.map_map]
  exact mem_asked

theorem reads_of_allAnswer (h : f.sets.lookup req.resultSetId = some fset)
    (hall : AllAnswer rep f req out fset) : ReadsAnswered rep f req out := by
  have hasc : Ascending (jobsOf rep fset req) := ascending_jobs _ _ _ _
  refine ⟨fun x hx => ?_, fun fset' hset => ?_⟩
  · rw [present_eq h] at hx
    simp only [List.mem_append] at hx
    rcases hx with hx | hx
    · -- the loop over the responses
      obtain ⟨b, hb, hany, rfl⟩ := mem_readResponses.mp hx
      have hb' := mem_asked.mp hb
      refine ⟨rfl, (sent_present h b).mpr hb', ?_⟩
      have hsome := isSome_presentRecords.mpr (service_present.mp hany)
      rw [presented, bind_multiMove hb (hall.fresh b hb')] at hsome
      exact isSome_presentRecords.mp hsome
    · -- the loop over the jobs
      split_ifs at hx with hdec
      · obtain ⟨hno, hpos, hle⟩ := (decisionOf_eq_assemble hall.fresh).mp hdec
        obtain ⟨j', hj', hx⟩ := List.mem_flatMap.mp hx
        obtain ⟨j, hj, rfl⟩ := List.mem_map.mp hj'
        obtain ⟨hasked, res, hres, hover⟩ := hall.answered hno hpos hle j hj
        rcases mem_jobReads.mp hx with rfl | ⟨res', l, hres', hl, hlt, rfl⟩
        · rw [backend_place]
          exact ⟨rfl, (sent_present h _).mpr hasked, res, hres⟩
        · rw [backend_place, response_presented hasked, hres] at hres'
          cases hres'
          rw [backend_place]
          refine ⟨(sent_present h _).mpr hasked, res, l, hres, hl, ?_, hlt⟩
          by_cases ho : Overlooked (jobsOf rep fset req) j
          · have := hover ho l hl
            rw [insidePos_overlooked hasc (mem_jobs hj).2 ho] at hlt
            omega
          · obtain ⟨hinside, -, hle⟩ := insidePos_place hasc hj ho
            rw [hinside]
            omega
      · cases hx
  · rw [h] at hset
    cases hset
    rw [present_eq h]
    simp only [List.countP_append, countP_isRecord_readResponses, Nat.zero_add]
    split_ifs
    · refine (countP_flatMap_le (countP_isRecord_jobReads _) _).trans ?_
      rw [placedOf, List.length_map]
    · exact Nat.zero_le _

theorem allAnswer_of_reads (h : f.sets.lookup req.resultSetId = some fset)
    (hreads : ReadsAnswered rep f req out) : AllAnswer rep f req out fset := by
  have hasc : Ascending (jobsOf rep fset req) := ascending_jobs _ _ _ _
  have hfresh : ∀ b, Asked (jobsOf rep fset req) b → Fresh Gdu.presentRecords f out b := by
    intro b hb hr
    -- otherwise the old response is read
    by_contra hold
    have hmem : Read.response b .present ∈ (present rep f req out).read := by
      rw [present_eq h]
      refine List.mem_append_left _ (mem_readResponses.mpr ⟨b, mem_asked.mpr hb, ?_, rfl⟩)
      rw [response_presented hb, hr, Option.none_or, service_present]
      exact isSome_presentRecords.mp (Option.isSome_iff_ne_none.mpr hold)
    obtain ⟨-, -, res, hres⟩ := hreads.read _ hmem
    rw [hr] at hres
    cases hres
  refine ⟨hfresh, fun hno hpos hle j hj => ?_⟩
  have hdec := (decisionOf_eq_assemble hfresh).mpr ⟨hno, hpos, hle⟩
  have hmem : ∀ x ∈ jobReads (presented rep f req out fset) (place (jobsOf rep fset req) j),
      x ∈ (present rep f req out).read := by
    intro x hx
    rw [present_eq h]
    refine List.mem_append_right _ ?_
    rw [if_pos hdec]
    exact List.mem_flatMap.mpr ⟨_, List.mem_map.mpr ⟨j, hj, rfl⟩, hx⟩
  have hread := hreads.read _ (hmem _ (mem_jobReads.mpr (.inl rfl)))
  rw [backend_place] at hread
  obtain ⟨-, hasked, res, hres⟩ := hread
  have hasked' := (sent_present h _).mp hasked
  refine ⟨hasked', res, hres, fun hover l hl => ?_⟩
  by_contra hneg
  have hinside := insidePos_overlooked hasc (mem_jobs hj).2 hover
  have hrecord := hreads.read _ (hmem _ (mem_jobReads.mpr (.inr ⟨res, l, by
    rw [backend_place, response_presented hasked', hres]
    rfl, hl, by omega, rfl⟩)))
  obtain ⟨-, -, -, -, -, hk, -⟩ := hrecord
  omega

end Present

/-- `present` reads only responses to this request, and only records that are there, if and only
if the backends of all jobs answer whenever records are assembled. -/
theorem present_answered (rep : Rep) (f : Frontend ρ) (req : PresentRequest)
    (out : BackendPtr → Outcome ρ) :
    ReadsAnswered rep f req out ↔
      ∀ fset, f.sets.lookup req.resultSetId = some fset → AllAnswer rep f req out fset := by
  constructor
  · intro h fset hset
    exact allAnswer_of_reads hset h
  · intro h
    cases hset : f.sets.lookup req.resultSetId with
    | none =>
      refine ⟨?_, by simp [hset]⟩
      rw [present_none hset]
      exact fun x hx => absurd hx List.not_mem_nil
    | some fset => exact reads_of_allAnswer hset (h fset hset)

/-! ## A backend that closes -/

/-- The backends one after the other, with `hideunavailable` and `hideerrors`. -/
def hidingRep : Rep where
  routePatterns := []
  hideUnavailable := true
  hideErrors := true
  mergeType := .serveOrder
  matchGlob _ _ := false
  hostArgs _ := none

/-- One hit in each of two backends. -/
def oneEach : FrontendSet BackendPtr where
  setname := "1"
  backendSets := [⟨0, 1⟩, ⟨1, 1⟩]
  distinct := by decide

/-- After the search. -/
def searched : Frontend Unit where
  isMulti := true
  backendList := [0, 1]
  distinct := by decide
  backends b := ⟨if b = 0 then "a" else "b", "", "", false, some (.search ⟨1, 0, 0, none⟩)⟩
  sets := AList.singleton "1" oneEach

def firstTwo : PresentRequest := ⟨"1", 1, 2, none, none⟩

/-- The first backend closes, the second returns its record. -/
def firstCloses (b : BackendPtr) : Outcome Unit :=
  if b = 0 then ⟨true, some (.close "")⟩
  else
    ⟨false, some (.present ⟨1, 2, .success, some (.databaseOrSurDiagnostics ⟨1, [⟨none, ()⟩]⟩), none⟩)⟩

/-- The response of the first backend is a close, and is read as a present response. -/
theorem close_read : ¬ ReadsAnswered hidingRep searched firstTwo firstCloses := by
  intro h
  have hmem : Read.response 0 .present ∈ (present hidingRep searched firstTwo firstCloses).read := by decide
  obtain ⟨-, -, res, hres⟩ := h.read _ hmem
  cases hres

end Multi
end Metaproxy
