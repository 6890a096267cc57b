import Metaproxy.Clients.Filters
import Metaproxy.Clients.Serial
import Metaproxy.Multi.Conversation
import Metaproxy.VirtualDB.Conversation

/-!
# Clients.Conversations

`virt_db` and `multi` with any number of clients, whose packages take turns in any way. What the
backend sessions of a client see is, from its first package until its `Frontend` object is dropped,
what they see of a client that is alone (`all_conversations`).
-/

namespace Metaproxy
namespace Clients

open Lib

/-! ## `virt_db` -/

/-- `virtDb`, with all packages that are sent to backends. -/
def virtDbPackages (rep : VirtualDB.Rep) (passVhosts : Bool) :
    Filter VirtualFrontend VirtualWork VirtualDB.Sent where
  create := (virtDb rep passVhosts).create
  process f w :=
    match f.isVirtual, w.request with
    | false, some .init =>
      if w.vhosts && passVhosts then (f, w.closed, []) else ({ f with isVirtual := true }, false, [])
    | false, _ => (f, w.closed, [])
    | true, some a =>
      let s := (VirtualDB.process rep { f.st with isClosed := false, log := [] } a).1
      ({ f with st := s }, s.isClosed, s.log)
    | true, none => (f, false, [])
  close f := (f.st.backendList.map fun b => .close b.session b.route).reverse

variable {rep : VirtualDB.Rep} {passVhosts : Bool}

/-- The conversations of an object that has sent this. -/
def VirtualFrontend.Conversed (f : VirtualFrontend) (sent : List VirtualDB.Sent) : Prop :=
  VirtualDB.Conversed { f.st with log := sent }

theorem virtDb_create_conversed :
    (virtDbPackages rep passVhosts).create.Conversed [] :=
  have hreach : Reach (VirtualDB.step rep) VirtualDB.init Any ⟨[], ∅, 0, false, []⟩ :=
    .start ⟨rfl, rfl, rfl, rfl⟩
  VirtualDB.conversed_of_reach hreach

theorem virtDb_process_conversed (f : VirtualFrontend) (sent : List VirtualDB.Sent) (w : VirtualWork)
    (h : f.Conversed sent) :
    ((virtDbPackages rep passVhosts).process f w).1.Conversed
      (((virtDbPackages rep passVhosts).process f w).2.2 ++ sent) := by
  simp only [virtDbPackages]
  split
  · split
    · exact h
    · exact h
  · exact h
  · rename_i a _ _
    have hopen : VirtualDB.Conversed
        (VirtualDB.St.after { f.st with isClosed := false, log := [] } sent) :=
      ⟨h.talks.congr rfl rfl (Nat.le_refl _), h.sets⟩
    have hnext : VirtualDB.Conversed (VirtualDB.process rep
        (VirtualDB.St.after { f.st with isClosed := false, log := [] } sent) a).1 :=
      VirtualDB.process_conversed hopen a
    rw [VirtualDB.process_after] at hnext
    exact hnext
  · exact h

/-! ## `multi` -/

section Multi

open Multi (BackendPtr)

variable {ρ : Type*}

/-- `multi`, with all packages that are sent to backends. -/
def multiPackages (rep : Multi.Rep) :
    Filter (Multi.Frontend ρ) (MultiWork ρ) (BackendPtr × Multi.Request) where
  create := (multi rep).create
  process f w :=
    match Multi.process rep f w.request w.out w.pout with
    | some r => (r.frontend, r.closed, r.sent.reverse)
    | none => (f, w.closed, [])
  close f := f.close.reverse

theorem multi_create_conversed (rep : Multi.Rep) :
    Multi.Client.Conversed ⟨(multiPackages (ρ := ρ) rep).create, false, []⟩ :=
  Multi.Client.conversed_of_init ⟨rfl, rfl, rfl⟩

theorem multi_process_conversed (rep : Multi.Rep) (f : Multi.Frontend ρ)
    (sent : List (BackendPtr × Multi.Request)) (w : MultiWork ρ)
    (h : Multi.Client.Conversed ⟨f, false, sent.reverse⟩) :
    Multi.Client.Conversed ⟨((multiPackages rep).process f w).1, false,
      (((multiPackages rep).process f w).2.2 ++ sent).reverse⟩ := by
  have hstep : Multi.Client.step rep ⟨f, false, sent.reverse⟩ ⟨w.request, w.out, w.pout, false⟩ =
      some ⟨((multiPackages rep).process f w).1,
        (Multi.process rep f w.request w.out w.pout).any (·.closed),
        (((multiPackages rep).process f w).2.2 ++ sent).reverse⟩ := by
    rw [Multi.Client.step, if_neg Bool.false_ne_true]
    simp only [multiPackages]
    cases Multi.process rep f w.request w.out w.pout with
    | none => rfl
    | some r => simp
  have hnext := Multi.Client.conversed_step h hstep
  exact ⟨hnext.idle, hnext.opened, hnext.ended, hnext.agreed, hnext.sets, hnext.presents⟩

end Multi

/-! ## Every run -/

theorem virtDb_talks {s : St VirtualFrontend VirtualDB.Sent}
    (h : Reach (step (virtDbPackages rep passVhosts)) init Any s) {ptr : Nat} (hptr : ptr < s.made)
    (hdrop : Dropped ptr s.log) (session : Nat) :
    VirtualDB.Talk session (VirtualDB.talk (sentBy ptr s.log) session) := by
  obtain ⟨sent, hsent, heq⟩ := (everyObject virtDb_create_conversed virtDb_process_conversed h
    hptr).2 hdrop
  rw [heq]
  exact VirtualDB.Talks.finish hsent.talks session

theorem multi_talks {ρ : Type*} {rep : Multi.Rep}
    {s : St (Multi.Frontend ρ) (Multi.BackendPtr × Multi.Request)}
    (h : Reach (step (multiPackages rep)) init Any s) {ptr : Nat} (hptr : ptr < s.made)
    (hdrop : Dropped ptr s.log) :
    (∀ b, Multi.Client.Talk (Multi.Client.talk (sentBy ptr s.log).reverse b)) ∧
      Multi.Client.AfterSearch (sentBy ptr s.log).reverse := by
  obtain ⟨sent, hsent, heq⟩ := (everyObject
    (P := fun f sent => Multi.Client.Conversed ⟨f, false, sent.reverse⟩)
    (multi_create_conversed rep) (multi_process_conversed rep) h hptr).2 hdrop
  have hfinished := hsent.finished
  have hall : (sentBy ptr s.log).reverse =
      Multi.Client.finish ⟨(s.frontends ptr).state, false, sent.reverse⟩ := by
    rw [heq, List.reverse_append]
    exact congrArg (sent.reverse ++ ·) (List.reverse_reverse _)
  rw [hall]
  exact ⟨hfinished.1, hfinished.2.2.2⟩

/-- Every run of the two filters, with any clients, packages and answers of the backends: by the time
that the object of a client is dropped, each backend session of it has seen nothing, an init that
came to nothing, or an init, requests and one close; and no backend of `multi` has been asked for
records of a result set before it was asked to make it. -/
theorem all_conversations {ρ : Type*} (vrep : VirtualDB.Rep) (passVhosts : Bool) (mrep : Multi.Rep) :
    (∀ s : St VirtualFrontend VirtualDB.Sent,
      Reach (step (virtDbPackages vrep passVhosts)) init Any s →
      ∀ ptr < s.made, Dropped ptr s.log →
        ∀ session, VirtualDB.Talk session (VirtualDB.talk (sentBy ptr s.log) session)) ∧
    (∀ s : St (Multi.Frontend ρ) (Multi.BackendPtr × Multi.Request),
      Reach (step (multiPackages mrep)) init Any s →
      ∀ ptr < s.made, Dropped ptr s.log →
        (∀ b, Multi.Client.Talk (Multi.Client.talk (sentBy ptr s.log).reverse b)) ∧
          Multi.Client.AfterSearch (sentBy ptr s.log).reverse) :=
  ⟨fun _ h _ hptr hdrop session => virtDb_talks h hptr hdrop session,
    fun _ h _ hptr hdrop => multi_talks h hptr hdrop⟩

/-- The packages of session 7 are those of `closedLast`; session 8 comes in between. -/
def twoClients : List (Label VirtualWork) :=
  [.arrive 0 ⟨7, false⟩, .arrive 3 ⟨8, false⟩, .work 0 (request .init), .arrive 1 ⟨7, false⟩,
    .work 3 (request .init), .release 0, .release 3, .wake 1, .work 1 (request (.search
      ⟨"1", true, ["db"]⟩ ⟨some ⟨true, true, none⟩, false⟩ ⟨some .none, false⟩)), .arrive 2 ⟨7, false⟩,
    .release 1, .wake 2, .work 2 (request .unsupported), .release 2]

theorem all_conversations_two : ∃ s : St VirtualFrontend VirtualDB.Sent,
    (sentBy 0 s.log).length = 3 ∧ VirtualDB.Talk 1 (VirtualDB.talk (sentBy 0 s.log) 1) := by
  have hrun : (run (step (virtDbPackages anyDatabase false)) (.start (virtDbPackages anyDatabase false))
      twoClients).any fun s => decide (s.made = 2) && (decide (.erased 7 0 ∈ s.log) &&
        decide ((sentBy 0 s.log).length = 3)) := by
    decide
  obtain ⟨s, h, hs⟩ := Reach.exists_of_run (init_start _) (runOk_any _ _) hrun
  simp only [Bool.and_eq_true, decide_eq_true_eq] at hs
  obtain ⟨hmade, herased, hsent⟩ := hs
  have hall := all_conversations (ρ := Unit) anyDatabase false Multi.hidingRep
  exact ⟨s, hsent, hall.1 s h 0 (by omega) ⟨7, herased⟩ 1⟩

end Clients
end Metaproxy
