import Metaproxy.Clients.Exclusion

/-!
# Clients.Serial

However the packages of all sessions take turns, each `Frontend` object goes through the requests
that it is given one after the other, as if it were alone (`serial`). What every request keeps of an
object and of what it has sent therefore holds in every run of the filter (`everyObject`).
-/

namespace Metaproxy
namespace Clients

open Lib

variable {φ α ε : Type*}

/-- An object by itself, with what it has sent, the latest first. -/
structure Alone (φ ε : Type*) where
  state : φ
  sent : List ε

def Alone.process (F : Filter φ α ε) (o : Alone φ ε) (a : α) : Alone φ ε :=
  ⟨(F.process o.state a).1, (F.process o.state a).2.2 ++ o.sent⟩

/-- After some requests, the first first. -/
def alone (F : Filter φ α ε) (requests : List α) : Alone φ ε :=
  requests.foldl (Alone.process F) ⟨F.create, []⟩

/-- With `Frontend::close`. -/
def Alone.finish (F : Filter φ α ε) (o : Alone φ ε) : List ε := F.close o.state ++ o.sent

def sentBy (ptr : Nat) (log : List (Event ε)) : List ε :=
  log.filterMap fun
    | .sent _ q e => if q = ptr then some e else none
    | _ => none

/-- It is no longer in `m_clients`. -/
def Dropped (ptr : Nat) (log : List (Event ε)) : Prop := ∃ i, .erased i ptr ∈ log

/-- A run, with the requests that each object has been given. -/
inductive Runs (F : Filter φ α ε) : (Nat → List α) → St φ ε → Prop where
  | start {s : St φ ε} : init s → Runs F (fun _ => []) s
  | work {given : Nat → List α} {s s' : St φ ε} {p ptr : Nat} {a : α} : Runs F given s →
      (s.packages p).pc = .inside ptr → step F s (.work p a) = some s' →
      Runs F (Function.update given ptr (given ptr ++ [a])) s'
  | other {given : Nat → List α} {s s' : St φ ε} {a : Label α} : Runs F given s →
      (∀ p x, a ≠ .work p x) → step F s a = some s' → Runs F given s'

structure Serial (F : Filter φ α ε) (given : Nat → List α) (s : St φ ε) : Prop where
  state : ∀ ptr < s.made, (s.frontends ptr).state = (alone F (given ptr)).state
  fresh : ∀ ptr, s.made ≤ ptr → given ptr = []
  sent : ∀ ptr, ¬ Dropped ptr s.log → sentBy ptr s.log = (alone F (given ptr)).sent
  dropped : ∀ ptr, Dropped ptr s.log → sentBy ptr s.log = (alone F (given ptr)).finish F

variable {F : Filter φ α ε} {given : Nat → List α} {s s' : St φ ε} {p ptr : Nat}
  {session : Session} {log : List (Event ε)}

/-! ## Logs -/

theorem sentBy_sent (i : SessionId) (l : List ε) (ptr' : Nat) :
    sentBy ptr' (l.map (.sent i ptr) ++ log) =
      (if ptr = ptr' then l else []) ++ sentBy ptr' log := by
  rw [sentBy, List.filterMap_append, List.filterMap_map]
  refine congrArg (· ++ _) ?_
  by_cases hptr : ptr = ptr'
  · rw [if_pos hptr]
    exact (List.filterMap_congr fun e _ => if_pos hptr).trans List.filterMap_some
  · rw [if_neg hptr, List.filterMap_eq_nil_iff]
    exact fun e _ => if_neg hptr

theorem dropped_sent (i : SessionId) (l : List ε) (ptr' : Nat) :
    Dropped ptr' (l.map (.sent i ptr) ++ log) ↔ Dropped ptr' log := by
  refine exists_congr fun j => ?_
  rw [List.mem_append, List.mem_map]
  refine or_iff_right ?_
  rintro ⟨e, -, heq⟩
  cases heq

theorem dropped_erased (i : SessionId) (ptr' : Nat) :
    Dropped ptr' (.erased i ptr :: log) ↔ ptr' = ptr ∨ Dropped ptr' log := by
  constructor
  · rintro ⟨j, hj⟩
    rcases List.mem_cons.mp hj with heq | hj
    · cases heq
      exact .inl rfl
    · exact .inr ⟨j, hj⟩
  · rintro (rfl | ⟨j, hj⟩)
    · exact ⟨i, List.mem_cons_self⟩
    · exact ⟨j, List.mem_cons_of_mem _ hj⟩

theorem dropped_released (i : SessionId) (closed : Bool) (ptr' : Nat) :
    Dropped ptr' (.released i closed :: log) ↔ Dropped ptr' log := by
  refine exists_congr fun j => ?_
  rw [List.mem_cons]
  refine or_iff_right fun heq => ?_
  cases heq

theorem alone_append (requests : List α) (a : α) :
    alone F (requests ++ [a]) = (alone F requests).process F a := by
  rw [alone, List.foldl_append]
  rfl

/-! ## Steps -/

theorem Exclusive.inside (h : Exclusive s) (hp : (s.packages p).pc = .inside ptr) :
    ptr < s.made ∧ ¬ Dropped ptr s.log := by
  have hl := (h.stored p ptr hp).1
  refine ⟨h.made _ _ hl, ?_⟩
  rintro ⟨i, hi⟩
  exact (h.erased i ptr hi).2 _ hl

/-- Only these fields matter. -/
theorem Serial.congr (h : Serial F given s) (hmade : s'.made = s.made)
    (hstate : ∀ ptr, (s'.frontends ptr).state = (s.frontends ptr).state)
    (hlog : s'.log = s.log) : Serial F given s' where
  state ptr hptr := (hstate ptr).trans (h.state ptr (hmade ▸ hptr))
  fresh ptr hptr := h.fresh ptr (hmade ▸ hptr)
  sent ptr := by
    rw [hlog]
    exact h.sent ptr
  dropped ptr := by
    rw [hlog]
    exact h.dropped ptr

theorem state_setFrontend (inUse : Bool) (ptr' : Nat) :
    ((s.setFrontend ptr { s.frontends ptr with inUse }).frontends ptr').state =
      (s.frontends ptr').state := by
  by_cases hptr : ptr' = ptr
  · subst hptr
    simp [St.setFrontend]
  · simp [St.setFrontend, hptr]

theorem getFrontend_serial (h : Serial F given s) : Serial F given (getFrontend F s p session) := by
  unfold getFrontend
  split
  · split
    · exact h.congr rfl (fun _ => rfl) rfl
    · exact h.congr rfl (state_setFrontend true) rfl
  · refine ⟨fun ptr hptr => ?_, fun ptr hptr => h.fresh ptr (Nat.le_of_succ_le hptr), h.sent,
      h.dropped⟩
    show (Function.update s.frontends s.made ⟨true, F.create⟩ ptr).state = _
    by_cases hnew : ptr = s.made
    · rw [hnew, Function.update_self, h.fresh s.made (Nat.le_refl _)]
      rfl
    · rw [Function.update_of_ne hnew]
      exact h.state ptr (Nat.lt_of_le_of_ne (Nat.le_of_lt_succ hptr) hnew)

theorem work_serial (h : Serial F given s) (hlt : ptr < s.made) (hnot : ¬ Dropped ptr s.log) (a : α)
    (i : SessionId) (pkg : Package) :
    Serial F (Function.update given ptr (given ptr ++ [a]))
      { (s.setFrontend ptr
          { s.frontends ptr with state := (F.process (s.frontends ptr).state a).1 }).setPackage p pkg
        with log := (F.process (s.frontends ptr).state a).2.2.map (.sent i ptr) ++ s.log } := by
  have hstate := h.state ptr hlt
  refine ⟨fun ptr' hptr' => ?_, fun ptr' hptr' => ?_, fun ptr' hdrop => ?_, fun ptr' hdrop => ?_⟩
  · show (Function.update s.frontends ptr _ ptr').state = _
    by_cases heq : ptr' = ptr
    · subst heq
      rw [Function.update_self, Function.update_self, alone_append, hstate]
      rfl
    · rw [Function.update_of_ne heq, Function.update_of_ne heq]
      exact h.state ptr' hptr'
  · have hne : ptr' ≠ ptr := (Nat.ne_of_lt (Nat.lt_of_lt_of_le hlt hptr')).symm
    rw [Function.update_of_ne hne]
    exact h.fresh ptr' hptr'
  · have hold := h.sent ptr' ((dropped_sent i _ ptr').not.mp hdrop)
    dsimp only
    rw [sentBy_sent, hold]
    by_cases heq : ptr' = ptr
    · subst heq
      rw [if_pos rfl, Function.update_self, alone_append, hstate]
      rfl
    · rw [if_neg (Ne.symm heq), Function.update_of_ne heq]
      rfl
  · have hold := (dropped_sent i _ ptr').mp hdrop
    have hne : ptr' ≠ ptr := by
      rintro rfl
      exact hnot hold
    dsimp only
    rw [sentBy_sent, if_neg (Ne.symm hne), Function.update_of_ne hne]
    exact h.dropped ptr' hold

theorem releaseFrontend_serial (h : Serial F given s)
    (hl : s.clients.lookup session.id = some ptr) (hlt : ptr < s.made)
    (hnot : ¬ Dropped ptr s.log) : Serial F given (releaseFrontend F s session) := by
  unfold releaseFrontend
  rw [hl]
  dsimp only
  split
  · have hsent (ptr' : Nat) : sentBy ptr' (.erased session.id ptr ::
        ((F.close (s.frontends ptr).state).map (.sent session.id ptr) ++ s.log)) =
        (if ptr = ptr' then F.close (s.frontends ptr).state else []) ++ sentBy ptr' s.log :=
      sentBy_sent _ _ _
    refine ⟨h.state, h.fresh, fun ptr' hdrop => ?_, fun ptr' hdrop => ?_⟩
    · rw [dropped_erased, dropped_sent, not_or] at hdrop
      rw [hsent, if_neg (Ne.symm hdrop.1)]
      exact h.sent ptr' hdrop.2
    · rw [dropped_erased, dropped_sent] at hdrop
      rw [hsent]
      rcases hdrop with rfl | hdrop
      · rw [if_pos rfl, h.sent _ hnot, h.state _ hlt]
        rfl
      · have hne : ptr ≠ ptr' := by
          rintro rfl
          exact hnot hdrop
        rw [if_neg hne]
        exact h.dropped ptr' hdrop
  · exact h.congr rfl (state_setFrontend false) rfl

theorem serial_release (h : Serial F given s) (i : SessionId) (closed : Bool) (pkg : Package) :
    Serial F given { s.setPackage p pkg with log := .released i closed :: s.log } := by
  refine ⟨h.state, h.fresh, fun ptr hdrop => ?_, fun ptr hdrop => ?_⟩
  · exact h.sent ptr ((dropped_released i closed ptr).not.mp hdrop)
  · exact h.dropped ptr ((dropped_released i closed ptr).mp hdrop)

theorem serial_of_runs (h : Runs F given s) : Exclusive s ∧ Serial F given s := by
  induction h with
  | @start s hs =>
    obtain ⟨-, hmade, -, hlog⟩ := id hs
    have hnot (ptr : Nat) : ¬ Dropped ptr s.log := by
      rintro ⟨i, hi⟩
      rw [hlog] at hi
      cases hi
    refine ⟨exclusive_of_init hs, fun ptr hptr => ?_, fun ptr _ => rfl, fun ptr _ => ?_,
      fun ptr hdrop => absurd hdrop (hnot ptr)⟩
    · rw [hmade] at hptr
      exact absurd hptr (Nat.not_lt_zero ptr)
    · rw [hlog]
      rfl
  | @work given s s' p ptr a _ hp hs ih =>
    obtain ⟨hx, hserial⟩ := ih
    refine ⟨exclusive_step hx hs, ?_⟩
    obtain ⟨session, hout, -⟩ | ⟨q, x, session, ptr', heq, hq, rfl⟩ | ⟨q, session, ptr', heq, -⟩ :=
      step_cases hs
    · exact absurd hp (hout ptr)
    · cases heq
      rw [hq] at hp
      cases hp
      have hpc : (s.packages p).pc = .inside ptr := by rw [hq]
      have hin := hx.inside hpc
      exact work_serial hserial hin.1 hin.2 a _ _
    · cases heq
  | @other given s s' a _ hne hs ih =>
    obtain ⟨hx, hserial⟩ := ih
    refine ⟨exclusive_step hx hs, ?_⟩
    obtain ⟨session, -, rfl⟩ | ⟨q, x, session, ptr', rfl, -⟩ | ⟨q, session, ptr', rfl, hq, rfl⟩ :=
      step_cases hs
    · exact getFrontend_serial hserial
    · exact absurd rfl (hne q x)
    · have hpc : (s.packages q).pc = .inside ptr' := by rw [hq]
      have hl : s.clients.lookup session.id = some ptr' := by
        have hstored := (hx.stored q ptr' hpc).1
        rwa [hq] at hstored
      have hin := hx.inside hpc
      exact serial_release (releaseFrontend_serial hserial hl hin.1 hin.2) _ _ _

theorem runs_of_reach {ok : St φ ε → Label α → Prop} (h : Reach (step F) init ok s) :
    ∃ given, Runs F given s := by
  induction h with
  | start hs => exact ⟨_, .start hs⟩
  | @next s s' e _ _ hs ih =>
    obtain ⟨given, hr⟩ := ih
    obtain ⟨session, hout, heq⟩ | ⟨p, x, session, ptr, rfl, hp, -⟩ | ⟨p, session, ptr, rfl, -⟩ :=
      step_cases hs
    · refine ⟨given, .other hr (fun p x hwork => ?_) hs⟩
      subst hwork
      rw [step] at hs
      split at hs
      · rename_i session' ptr hp
        exact hout ptr (by rw [Label.package, hp])
      · cases hs
    · exact ⟨_, .work hr (by rw [hp]) hs⟩
    · exact ⟨given, .other hr (fun q x hwork => by cases hwork) hs⟩

/-- Whatever the filter, in every run: each object is in the state that the requests it has been
given, one after the other, leave an object in that is alone, and it has sent what that one sends;
once it is dropped, also what `Frontend::close` sends. -/
theorem serial (F : Filter φ α ε) (h : Runs F given s) {ptr : Nat} (hptr : ptr < s.made) :
    (s.frontends ptr).state = (alone F (given ptr)).state ∧
      (¬ Dropped ptr s.log → sentBy ptr s.log = (alone F (given ptr)).sent) ∧
      (Dropped ptr s.log → sentBy ptr s.log = (alone F (given ptr)).finish F) :=
  ⟨(serial_of_runs h).2.state ptr hptr, (serial_of_runs h).2.sent ptr,
    (serial_of_runs h).2.dropped ptr⟩

/-- It sends each request on with a number. -/
def numbering : Filter Nat Unit Nat where
  create := 0
  process n _ := (n + 1, false, [n])
  close n := [n]

/-- Two packages of session 7 and one of session 8, which works in between. -/
def interleaved : List (Label Unit) :=
  [.arrive 0 ⟨7, false⟩, .arrive 1 ⟨8, false⟩, .arrive 2 ⟨7, true⟩, .work 0 (), .work 1 (),
    .release 0, .wake 2, .work 2 (), .release 2]

theorem serial_interleaved : ∃ given : Nat → List Unit, ∃ s : St Nat Nat,
    sentBy 0 s.log = [2, 1, 0] ∧
    (s.frontends 0).state = (alone numbering (given 0)).state ∧
    sentBy 0 s.log = (alone numbering (given 0)).finish numbering := by
  have hrun : (run (step numbering) (.start numbering) interleaved).any fun s =>
      decide (s.made = 2) && (decide (.erased 7 0 ∈ s.log) &&
        decide (sentBy 0 s.log = [2, 1, 0])) := by
    decide
  obtain ⟨s, h, hs⟩ := Reach.exists_of_run (init_start numbering) (runOk_any _ _) hrun
  simp only [Bool.and_eq_true, decide_eq_true_eq] at hs
  obtain ⟨hmade, herased, hsent⟩ := hs
  obtain ⟨given, hr⟩ := runs_of_reach h
  obtain ⟨hstate, -, hdropped⟩ := serial numbering hr (show 0 < s.made by omega)
  exact ⟨given, s, hsent, hstate, hdropped ⟨7, herased⟩⟩

/-! ## Every object -/

/-- What an object starts with and every request keeps. -/
theorem everyObject {P : φ → List ε → Prop} (hcreate : P F.create [])
    (hprocess : ∀ x sent a, P x sent → P (F.process x a).1 ((F.process x a).2.2 ++ sent))
    {ok : St φ ε → Label α → Prop} (h : Reach (step F) init ok s) {ptr : Nat} (hptr : ptr < s.made) :
    (¬ Dropped ptr s.log → P (s.frontends ptr).state (sentBy ptr s.log)) ∧
      (Dropped ptr s.log → ∃ sent, P (s.frontends ptr).state sent ∧
        sentBy ptr s.log = F.close (s.frontends ptr).state ++ sent) := by
  have hfold (requests : List α) (o : Alone φ ε) (ho : P o.state o.sent) :
      P (requests.foldl (Alone.process F) o).state (requests.foldl (Alone.process F) o).sent := by
    induction requests generalizing o with
    | nil => exact ho
    | cons a requests ih => exact ih _ (hprocess _ _ a ho)
  obtain ⟨given, hr⟩ := runs_of_reach h
  obtain ⟨-, hserial⟩ := serial_of_runs hr
  have halone := hfold (given ptr) ⟨F.create, []⟩ hcreate
  rw [hserial.state ptr hptr]
  exact ⟨fun hnot => hserial.sent ptr hnot ▸ halone,
    fun hdrop => ⟨_, halone, hserial.dropped ptr hdrop⟩⟩

end Clients
end Metaproxy
