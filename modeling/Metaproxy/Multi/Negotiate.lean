import Mathlib.Order.Bounds.Basic
import Metaproxy.Multi.Served

/-!
# Multi.Negotiate

What the loop of `Frontend::init` over the init responses leaves: which backends are kept, and the
options, versions and sizes of the response to the client.

* `negotiate_cases` — one response; `foldl_options`, `foldl_protocolVersion`, `foldl_sizes` — all
  of them.
* `init_spec` — every open backend is kept, and every init response of one narrows the options, also
  when it rejects; the sizes are those of the accepting ones.
* `init_keeps_accepting_iff` — when this is what the accepting backends alone would give.
-/

namespace Metaproxy
namespace Multi

variable {ρ : Type*}

/-- The init response of a backend that stays open. -/
def Outcome.initResponse (o : Outcome ρ) : Option InitResponse :=
  if o.closed then none
  else
    match o.response with
    | some (.init res) => some res
    | _ => none

/-- The same of one that accepts. -/
def Outcome.accepted (o : Outcome ρ) : Option InitResponse :=
  o.initResponse.filter InitResponse.result

theorem Outcome.accepts_eq (o : Outcome ρ) : o.accepts = o.accepted.isSome := by
  unfold accepts accepted initResponse
  cases o.closed with
  | true => rfl
  | false =>
    cases o.response with
    | none => rfl
    | some gdu =>
      cases gdu with
      | init res => cases hresult : res.result <;> simp [Option.filter, hresult]
      | _ => rfl

/-- A response offers what the proxy and all of the backends have, with the least of the sizes. -/
structure Intersects (req : InitRequest) (backends : List InitResponse) (res : InitResponse) :
    Prop where
  options : ∀ i, i ∈ res.options ↔ i ∈ ownOptions ∧ ∀ a ∈ backends, i ∈ a.options
  protocolVersion : ∀ i, i ∈ res.protocolVersion ↔
    i ∈ ownVersions ∧ ∀ a ∈ backends, i ∈ a.protocolVersion
  preferredMessageSize : IsLeast
    {n | n = req.preferredMessageSize ∨ ∃ a ∈ backends, n = a.preferredMessageSize}
    res.preferredMessageSize
  maximumRecordSize : IsLeast
    {n | n = req.maximumRecordSize ∨ ∃ a ∈ backends, n = a.maximumRecordSize}
    res.maximumRecordSize

/-- The backends of the request that accept, in order. -/
def acceptedOf (req : InitRequest) (out : BackendPtr → Outcome ρ) : List InitResponse :=
  (List.range req.vhosts.length).filterMap fun b => (out b).accepted

structure KeepsAccepting (req : InitRequest) (out : BackendPtr → Outcome ρ) (r : Result ρ) :
    Prop where
  backendList : r.frontend.backendList =
    (List.range req.vhosts.length).filter fun b => (out b).accepts
  answer : ∃ res, r.answer = .response (some (.init res)) ∧
    Intersects req (acceptedOf req out) res

theorem isLeast_foldl_min {α : Type*} (g : α → Int) (l : List α) (m : Int) :
    IsLeast {n | n = m ∨ ∃ a ∈ l, n = g a} (l.foldl (fun m a => min m (g a)) m) := by
  induction l generalizing m with
  | nil => exact ⟨.inl rfl, fun n hn => by simpa using (show n = m by simpa using hn).ge⟩
  | cons a l ih =>
    obtain ⟨hmem, hle⟩ := ih (min m (g a))
    refine ⟨?_, ?_⟩
    · rcases hmem with hmin | ⟨a', ha', heq⟩
      · rcases min_choice m (g a) with h | h
        · exact .inl (hmin.trans h)
        · exact .inr ⟨a, List.mem_cons_self, hmin.trans h⟩
      · exact .inr ⟨a', List.mem_cons_of_mem a ha', heq⟩
    · rintro n (rfl | ⟨a', ha', rfl⟩)
      · exact (hle (.inl rfl)).trans (min_le_left _ _)
      · rcases List.mem_cons.mp ha' with rfl | ha'
        · exact (hle (.inl rfl)).trans (min_le_right _ _)
        · exact hle (.inr ⟨a', ha', rfl⟩)

section Negotiate

variable {f : Frontend ρ} {out : BackendPtr → Outcome ρ}

/-- What `negotiate` makes of the response so far, by what the backend answers. -/
theorem negotiate_cases (h : Initiated f out) {b : BackendPtr} (hb : b ∈ f.backendList)
    (s : Negotiated) :
    ((out b).initResponse = none ∧ (negotiate f s b).res = s.res) ∨
    ∃ a, (out b).initResponse = some a ∧
      (negotiate f s b).res.options = s.res.options.filter (· ∈ a.options) ∧
      (negotiate f s b).res.protocolVersion =
        s.res.protocolVersion.filter (· ∈ a.protocolVersion) ∧
      (negotiate f s b).res.preferredMessageSize =
        (if a.result then min s.res.preferredMessageSize a.preferredMessageSize
          else s.res.preferredMessageSize) ∧
      (negotiate f s b).res.maximumRecordSize =
        (if a.result then min s.res.maximumRecordSize a.maximumRecordSize
          else s.res.maximumRecordSize) := by
  unfold negotiate Outcome.initResponse
  rw [h.isClosed b hb, h.response b hb]
  cases (out b).closed with
  | true => exact .inl ⟨rfl, rfl⟩
  | false =>
    cases (out b).response with
    | none => exact .inl ⟨rfl, rfl⟩
    | some gdu =>
      cases gdu with
      | init res =>
        refine .inr ⟨res, rfl, ?_⟩
        cases hresult : res.result <;> simp [hresult]
      | _ => exact .inl ⟨rfl, rfl⟩

section Foldl

variable {blist : List BackendPtr}

/-- A part that each init response narrows, narrowed by all of them. -/
theorem foldl_narrows (part : InitResponse → List Nat)
    (hpart : ∀ b ∈ blist, ∀ s, ((out b).initResponse = none ∧
        part (negotiate f s b).res = part s.res) ∨
      ∃ a, (out b).initResponse = some a ∧
        part (negotiate f s b).res = (part s.res).filter (· ∈ part a))
    (s : Negotiated) (i : Nat) :
    i ∈ part (blist.foldl (negotiate f) s).res ↔
      i ∈ part s.res ∧ ∀ b ∈ blist, ∀ a ∈ (out b).initResponse, i ∈ part a := by
  induction blist generalizing s with
  | nil => simp
  | cons b blist ih =>
    rw [List.foldl_cons, ih fun b' hb' => hpart b' (List.mem_cons_of_mem b hb')]
    simp only [List.forall_mem_cons]
    rcases hpart b List.mem_cons_self s with ⟨hnone, hres⟩ | ⟨a, ha, hres⟩
    · simp [hnone, hres]
    · simp [ha, hres, and_assoc]

theorem foldl_options (h : Initiated f out) (hsub : ∀ b ∈ blist, b ∈ f.backendList)
    (s : Negotiated) (i : Nat) :
    i ∈ (blist.foldl (negotiate f) s).res.options ↔
      i ∈ s.res.options ∧ ∀ b ∈ blist, ∀ a ∈ (out b).initResponse, i ∈ a.options := by
  refine foldl_narrows InitResponse.options (fun b hb s => ?_) s i
  rcases negotiate_cases h (hsub b hb) s with ⟨hnone, hres⟩ | ⟨a, ha, hres, -⟩
  · exact .inl ⟨hnone, congrArg _ hres⟩
  · exact .inr ⟨a, ha, hres⟩

theorem foldl_protocolVersion (h : Initiated f out) (hsub : ∀ b ∈ blist, b ∈ f.backendList)
    (s : Negotiated) (i : Nat) :
    i ∈ (blist.foldl (negotiate f) s).res.protocolVersion ↔
      i ∈ s.res.protocolVersion ∧
        ∀ b ∈ blist, ∀ a ∈ (out b).initResponse, i ∈ a.protocolVersion := by
  refine foldl_narrows InitResponse.protocolVersion (fun b hb s => ?_) s i
  rcases negotiate_cases h (hsub b hb) s with ⟨hnone, hres⟩ | ⟨a, ha, -, hres, -⟩
  · exact .inl ⟨hnone, congrArg _ hres⟩
  · exact .inr ⟨a, ha, hres⟩

theorem foldl_sizes (h : Initiated f out) (hsub : ∀ b ∈ blist, b ∈ f.backendList)
    (s : Negotiated) :
    (blist.foldl (negotiate f) s).res.preferredMessageSize =
      (blist.filterMap fun b => (out b).accepted).foldl
        (fun n a => min n a.preferredMessageSize) s.res.preferredMessageSize ∧
    (blist.foldl (negotiate f) s).res.maximumRecordSize =
      (blist.filterMap fun b => (out b).accepted).foldl
        (fun n a => min n a.maximumRecordSize) s.res.maximumRecordSize := by
  induction blist generalizing s with
  | nil => exact ⟨rfl, rfl⟩
  | cons b blist ih =>
    obtain ⟨hpreferred, hmaximum⟩ :=
      ih (fun b' hb' => hsub b' (List.mem_cons_of_mem b hb')) (negotiate f s b)
    rw [List.foldl_cons, hpreferred, hmaximum]
    rcases negotiate_cases h (hsub b List.mem_cons_self) s with
      ⟨hnone, hres⟩ | ⟨a, ha, -, -, hp, hm⟩
    · have haccepted : (out b).accepted = none := by rw [Outcome.accepted, hnone]; rfl
      simp only [List.filterMap_cons, haccepted, hres, and_self]
    · cases hresult : a.result with
      | true =>
        have haccepted : (out b).accepted = some a := by
          rw [Outcome.accepted, ha, Option.filter, if_pos hresult]
        simp only [List.filterMap_cons, haccepted, hp, hm, hresult, if_true, List.foldl_cons,
          and_self]
      | false =>
        have haccepted : (out b).accepted = none := by
          rw [Outcome.accepted, ha, Option.filter, if_neg (by simp [hresult])]
        simp [haccepted, hp, hm, hresult]

end Foldl

end Negotiate

section Init

variable {rep : Rep} {f : Frontend ρ} {req : InitRequest} {out : BackendPtr → Outcome ρ}

/-- What `init` leaves, whatever the backends answer. -/
theorem init_spec (rep : Rep) (f : Frontend ρ) (out : BackendPtr → Outcome ρ)
    (hne : req.vhosts ≠ []) :
    ∃ r res, init rep f req out = some r ∧
      r.frontend.backendList = (List.range req.vhosts.length).filter (fun b => !(out b).closed) ∧
      r.answer = .response (some (.init res)) ∧
      (∀ i, i ∈ res.options ↔ i ∈ ownOptions ∧
        ∀ b < req.vhosts.length, ∀ a ∈ (out b).initResponse, i ∈ a.options) ∧
      (∀ i, i ∈ res.protocolVersion ↔ i ∈ ownVersions ∧
        ∀ b < req.vhosts.length, ∀ a ∈ (out b).initResponse, i ∈ a.protocolVersion) ∧
      res.preferredMessageSize = (acceptedOf req out).foldl
        (fun n a => min n a.preferredMessageSize) req.preferredMessageSize ∧
      res.maximumRecordSize = (acceptedOf req out).foldl
        (fun n a => min n a.maximumRecordSize) req.maximumRecordSize := by
  have hinit := initiated_initiated rep f req out
  have hsub : ∀ b ∈ List.range req.vhosts.length, b ∈ (initiated rep f req out).backendList :=
    fun b hb => hb
  refine ⟨_, _, if_neg hne, ?_, rfl, fun i => ?_, fun i => ?_, ?_, ?_⟩
  · refine List.filter_congr fun b hb => ?_
    exact congrArg (! ·) (hinit.isClosed b hb)
  · simp only [← List.mem_range]
    exact foldl_options hinit hsub _ i
  · simp only [← List.mem_range]
    exact foldl_protocolVersion hinit hsub _ i
  · exact (foldl_sizes hinit hsub _).1
  · exact (foldl_sizes hinit hsub _).2

theorem mem_acceptedOf {a : InitResponse} :
    a ∈ acceptedOf req out ↔ ∃ b < req.vhosts.length, (out b).accepted = some a := by
  rw [acceptedOf, List.mem_filterMap]
  simp only [List.mem_range]

/-- The backends that stay open are those that accept. -/
def OpenAccept (req : InitRequest) (out : BackendPtr → Outcome ρ) : Prop :=
  ∀ b < req.vhosts.length, (out b).closed = true ∨ (out b).accepts = true

theorem not_closed_of_accepts {o : Outcome ρ} (h : o.accepts = true) : o.closed = false := by
  unfold Outcome.accepts at h
  cases hclosed : o.closed with
  | false => rfl
  | true => simp [hclosed] at h

/-- Among backends that are closed or accept, an init response is one that accepts. -/
theorem forall_initResponse (hopen : OpenAccept req out) (P : InitResponse → Prop) :
    (∀ b < req.vhosts.length, ∀ a ∈ (out b).initResponse, P a) ↔ ∀ a ∈ acceptedOf req out, P a := by
  constructor
  · intro h a ha
    obtain ⟨b, hb, haccepted⟩ := mem_acceptedOf.mp ha
    refine h b hb a ?_
    exact (Option.filter_eq_some_iff.mp haccepted).1
  · intro h b hb a ha
    refine h a (mem_acceptedOf.mpr ⟨b, hb, ?_⟩)
    rcases hopen b hb with hclosed | haccepts
    · rw [Outcome.initResponse, if_pos hclosed] at ha
      cases ha
    · rw [Outcome.accepts_eq, Outcome.accepted, Option.mem_def.mp ha] at haccepts
      rw [Outcome.accepted, Option.mem_def.mp ha]
      cases hresult : a.result with
      | true => rw [Option.filter, if_pos hresult]
      | false => simp [Option.filter, hresult] at haccepts

theorem openAccept_iff :
    (List.range req.vhosts.length).filter (fun b => !(out b).closed) =
      (List.range req.vhosts.length).filter (fun b => (out b).accepts) ↔ OpenAccept req out := by
  constructor
  · intro h b hb
    cases hclosed : (out b).closed with
    | true => exact .inl rfl
    | false =>
      have hmem : b ∈ (List.range req.vhosts.length).filter fun b => !(out b).closed :=
        List.mem_filter.mpr ⟨List.mem_range.mpr hb, by rw [hclosed]; rfl⟩
      rw [h] at hmem
      exact .inr (List.mem_filter.mp hmem).2
  · intro hopen
    refine List.filter_congr fun b hb => ?_
    rcases hopen b (List.mem_range.mp hb) with hclosed | haccepts
    · have hnot : (out b).accepts = false := by rw [Outcome.accepts, hclosed]; rfl
      rw [hclosed, hnot]
      rfl
    · rw [not_closed_of_accepts haccepts, haccepts]
      rfl

theorem keepsAccepting_iff {r : Result ρ} (h : init rep f req out = some r) :
    KeepsAccepting req out r ↔ OpenAccept req out := by
  have hne : req.vhosts ≠ [] := by
    intro hnil
    rw [init, if_pos hnil] at h
    cases h
  obtain ⟨r', res, hr', hlist, hanswer, hoptions, hversions, hpreferred, hmaximum⟩ :=
    init_spec rep f out hne
  rw [h] at hr'
  cases hr'
  constructor
  · intro hkeeps
    exact openAccept_iff.mp (hlist.symm.trans hkeeps.backendList)
  · intro hopen
    refine ⟨hlist.trans (openAccept_iff.mpr hopen), res, hanswer, fun i => ?_, fun i => ?_, ?_, ?_⟩
    · rw [hoptions, forall_initResponse hopen fun a => i ∈ a.options]
    · rw [hversions, forall_initResponse hopen fun a => i ∈ a.protocolVersion]
    · rw [hpreferred]
      exact isLeast_foldl_min _ _ _
    · rw [hmaximum]
      exact isLeast_foldl_min _ _ _

/-- Exactly the accepting backends are kept and make up the response, when no backend rejects
without closing or answers otherwise. -/
theorem init_keeps_accepting_iff (hhide : rep.hideUnavailable = true) (h : InitSucceeds req out) :
    ∃ r, init rep f req out = some r ∧ r.closed = false ∧
      (KeepsAccepting req out r ↔
        ∀ b < req.vhosts.length, (out b).closed = true ∨ (out b).accepts = true) := by
  obtain ⟨r, hr, hserved⟩ := init_served (f := f) hhide h
  exact ⟨r, hr, hserved.closed, keepsAccepting_iff hr⟩

end Init

/-- A configuration with `hideunavailable`. -/
def hideRep : Rep := ⟨[], true, false, .roundRobin, fun _ _ => false, fun _ => none⟩

def initTwo : InitRequest := ⟨["a", "b"], none, 1000, 2000, [0, 1], [0, 1, 2], none⟩

/-- The first target accepts, and can scan; the second cannot, and accepts or rejects. -/
def initOutcome (accepts : Bool) (b : BackendPtr) : Outcome Unit :=
  if b = 0 then ⟨false, some (.init ⟨[0, 1, 7, 14], [0, 1, 2], 800, 3000, true, none⟩)⟩
  else ⟨false, some (.init ⟨[0, 1, 14], [0, 1], 100, 100, accepts, none⟩)⟩

theorem init_keeps_accepting_two :
    ∃ r, init hideRep Frontend.new initTwo (initOutcome true) = some r ∧ r.closed = false ∧
      KeepsAccepting initTwo (initOutcome true) r :=
  (init_keeps_accepting_iff rfl ⟨0, by decide, by decide⟩).imp fun _ h =>
    ⟨h.1, h.2.1, h.2.2.mpr (by decide)⟩

/-- A target that rejects is kept. -/
theorem init_keeps_rejecting :
    InitSucceeds initTwo (initOutcome false) ∧
    ∃ r, init hideRep Frontend.new initTwo (initOutcome false) = some r ∧
      ¬ KeepsAccepting initTwo (initOutcome false) r := by
  refine ⟨⟨0, by decide, by decide⟩, _, rfl, fun hkeeps => ?_⟩
  rcases (keepsAccepting_iff rfl).mp hkeeps 1 (by decide) with h | h
  · exact absurd h (by decide)
  · exact absurd h (by decide)

end Multi
end Metaproxy
