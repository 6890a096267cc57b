import Metaproxy.Z3950Client.Assoc
import Metaproxy.Z3950Client.Exclusive

/-!
# Z3950Client.Stages

How a connection and the package that works with it stand to each other, from one end of
`send_and_receive` to the other (`Works`, `Served`), and that every part of it keeps them so.

A connection that no package works with is `Open`, when its session goes on: whatever was sent has
been answered. So what a package receives is the answer to what it has sent.
-/

namespace Metaproxy
namespace Z3950Client

open Lib

variable {OtherInfo ρ : Type*}

/-- Nothing has been done for the package yet. -/
structure Fresh (w : Work OtherInfo ρ) : Prop where
  io : w.io = .entering
  response : w.response = none
  aborted : w.aborted = false

/-- What has been sent for `session` on a connection. -/
structure Line (yaz : Yaz OtherInfo) (session : Option Nat) (c : Conn OtherInfo ρ) : Prop where
  inTurn : c.exchange.InTurn
  asked : c.exchange.asked = c.sent.filter fun x => x.apdu.isAnswered yaz
  session : ∀ x ∈ c.sent, session = some x.session
  first : ∀ x, c.sent.head? = some x → x.apdu.isInit = true
  finished : ∀ n x, c.sent[n]? = some x → x.apdu = .finished → n + 1 = c.sent.length

structure Open (c : Conn OtherInfo ρ) : Prop where
  connected : c.connected ≠ .no
  settled : c.exchange.Settled
  sent : c.sent ≠ []
  finished : ∀ x ∈ c.sent, x.apdu ≠ .finished

/-- Nothing has been sent. -/
structure Blank (c : Conn OtherInfo ρ) : Prop where
  sent : c.sent = []
  exchange : c.exchange = .new

/-- The target has been told, or there is none, or it has not answered. -/
def Told (c : Conn OtherInfo ρ) : Prop :=
  c.connected = .no ∨ c.exchange.Waits ∨ c.hasClosed = true

section

variable (yaz : Yaz OtherInfo) (conf : Settings) (host : String) (destroyed : Bool) (p : Nat)
  (package : Package OtherInfo) (c : Conn OtherInfo ρ) (w : Work OtherInfo ρ)

/-- What a package has got at the end. -/
inductive Served : Prop where
  | destroyed : destroyed = true → w.response = none → w.aborted = false → Served
  | nothing : package.apdu? false = none → Open c → w.response = none → w.aborted = false → Served
  | aborted (apdu : Apdu OtherInfo) (reason : CloseReason) : package.apdu? false = some apdu →
      destroyed = false → c.connected = .no ∨ c.exchange.Waits →
      w.response = some (.close reason) → w.aborted = true → Served
  | answered (apdu : Apdu OtherInfo) (gdu : Answer ρ) : package.apdu? false = some apdu →
      Open c → c.exchange.Last (package.sends yaz conf w.origin p apdu) gdu →
      w.response = some (.answer (gdu.fixup host)) → w.aborted = false → Served
  | unanswered (apdu : Apdu OtherInfo) : package.apdu? false = some apdu →
      apdu.isAnswered yaz = false → Open c → w.response = none → w.aborted = false → Served
  | forced : package.closed = true → c.hasClosed = true → w.response = none →
      w.aborted = false → Served

/-- The package waits for a connection. -/
structure Connecting (apdu : Apdu OtherInfo) : Prop where
  stays : destroyed = false
  blank : Blank c
  own : c.package = some p
  request : package.apdu? false = some apdu
  isInit : apdu.isInit = true
  now : c.waiting = true ∧ c.connected = .no ∧ w.response = none ∧ w.aborted = false ∨
    c.waiting = false ∧ c.connected ≠ .no ∧ w.response = none ∧ w.aborted = false ∨
    c.waiting = false ∧ c.connected = .no ∧
      (∃ reason, w.response = some (.close reason)) ∧ w.aborted = true

/-- The package has sent its request, or a close in its place, and waits for the response. -/
structure Receiving (forced : Bool) (apdu : Apdu OtherInfo) : Prop where
  stays : destroyed = false
  own : c.package = if forced then none else some p
  request : package.apdu? forced = some apdu
  closed : forced = true → package.closed = true ∧ c.hasClosed = true
  connected : c.connected ≠ .no
  sent : c.sent ≠ []
  finished : forced = false → ∀ x ∈ c.sent, x.apdu ≠ .finished
  last : c.exchange.asked.getLast? = some (package.sends yaz conf w.origin p apdu)
  now : c.waiting = true ∧ c.exchange.Waits ∧ w.response = none ∧ w.aborted = false ∨
    c.waiting = false ∧ (∃ gdu, c.exchange.Settled ∧
      c.exchange.Last (package.sends yaz conf w.origin p apdu) gdu ∧
      w.response = if forced then none else some (.answer (gdu.fixup host))) ∧
      w.aborted = false ∨
    c.waiting = false ∧ c.exchange.Waits ∧ w.aborted = !forced ∧
      ∃ reason, w.response = if forced then none else some (.close reason)

/-- A package in `send_and_receive`. -/
inductive Works : Prop where
  | entering : Fresh w → (destroyed = true ∨ Open c ∨
      Blank c ∧ c.connected = .no ∧ ∃ otherInfo, package.request = some (.init otherInfo)) → Works
  | connecting (apdu : Apdu OtherInfo) : w.io = .connecting apdu →
      Connecting destroyed p package c w apdu → Works
  | receiving (forced : Bool) (apdu : Apdu OtherInfo) : w.io = .receiving →
      Receiving yaz conf host destroyed p package c w forced apdu → Works
  | done : w.io = .done → Served yaz conf host destroyed p package c w → Works

end

/-! ## Requests -/

variable {yaz : Yaz OtherInfo} {conf : Settings} {host : String} {destroyed : Bool} {p : Nat}
  {package : Package OtherInfo} {c : Conn OtherInfo ρ} {w : Work OtherInfo ρ}
  {apdu : Apdu OtherInfo}

theorem prepare_finished (origin : Origin) (apdu : Apdu OtherInfo) :
    prepare yaz conf origin apdu = .finished ↔ apdu = .finished := by
  cases apdu with
  | init otherInfo => simp [prepare]
  | other encoding => simp [prepare]
  | finished => simp [prepare]

theorem isInit_prepare (origin : Origin) (apdu : Apdu OtherInfo) :
    (prepare yaz conf origin apdu).isInit = apdu.isInit := by
  cases apdu <;> rfl

theorem isAnswered_prepare (origin : Origin) (apdu : Apdu OtherInfo) :
    (prepare yaz conf origin apdu).isAnswered yaz = apdu.isAnswered yaz := by
  cases apdu <;> rfl

theorem Apdu.isAnswered_of_isInit (h : apdu.isInit = true) : apdu.isAnswered yaz = true := by
  cases apdu with
  | init otherInfo => rfl
  | other encoding => cases h
  | finished => cases h

theorem Package.apdu_ne_finished (h : package.apdu? false = some apdu) : apdu ≠ .finished := by
  rintro rfl
  obtain ⟨gdu, -, hgdu⟩ := Option.bind_eq_some_iff.mp h
  cases gdu with
  | init otherInfo => cases hgdu
  | other encoding => cases hgdu
  | http encoding => cases hgdu

theorem Package.apdu_of_init {otherInfo : OtherInfo}
    (h : package.request = some (.init otherInfo)) :
    package.apdu? false = some (.init otherInfo) := by
  simp [Package.apdu?, h, Gdu.apdu?]

/-! ## Sending -/

/-- A connection on which something may be sent. -/
structure Free (c : Conn OtherInfo ρ) : Prop where
  settled : c.exchange.Settled
  finished : ∀ x ∈ c.sent, x.apdu ≠ .finished

theorem Blank.free (h : Blank c) : Free c where
  settled := by
    rw [h.exchange]
    exact Exchange.settled_new
  finished x hx := by
    rw [h.sent] at hx
    cases hx

theorem Line.send {session : Option Nat} (h : Line yaz session c) (hfree : Free c)
    {s : Sent OtherInfo} (hsession : session = some s.session)
    (hfirst : c.sent = [] → s.apdu.isInit = true) : Line yaz session (c.send yaz s).1 := by
  have hsent : (c.send yaz s).1.sent = c.sent ++ [s] := by
    unfold Conn.send
    split <;> rfl
  refine ⟨?_, ?_, ?_, ?_, ?_⟩
  · unfold Conn.send
    split
    · exact h.inTurn.ask hfree.settled s
    · exact h.inTurn
  · rw [hsent, List.filter_append, ← h.asked]
    unfold Conn.send
    split
    · rename_i hanswered
      rw [List.filter_singleton, hanswered]
      rfl
    · rename_i hanswered
      rw [List.filter_singleton, Bool.eq_false_iff.mpr hanswered]
      exact (List.append_nil _).symm
  · intro x hx
    rw [hsent] at hx
    rcases List.mem_append.mp hx with hx | hx
    · exact h.session x hx
    · rw [List.mem_singleton.mp hx]
      exact hsession
  · intro x hx
    rw [hsent, List.head?_append] at hx
    cases hhead : c.sent.head? with
    | none =>
      rw [hhead] at hx
      cases hx
      exact hfirst (List.head?_eq_none_iff.mp hhead)
    | some y =>
      rw [hhead] at hx
      cases hx
      exact h.first x hhead
  · intro n x hx hfinished
    rw [hsent] at hx ⊢
    rw [List.length_append, List.length_singleton]
    rcases Nat.lt_or_ge n c.sent.length with hlt | hge
    · rw [List.getElem?_append_left hlt] at hx
      exact absurd hfinished (hfree.finished x (List.mem_of_getElem? hx))
    · have hlt := (List.getElem?_eq_some_iff.mp hx).1
      rw [List.length_append, List.length_singleton] at hlt
      omega

/-- What is asked for is waited for. -/
theorem Receiving.send {forced : Bool} (hstays : destroyed = false)
    (hown : c.package = if forced then none else some p)
    (hrequest : package.apdu? forced = some apdu)
    (hclosed : forced = true → package.closed = true ∧ c.hasClosed = true)
    (hconnected : c.connected ≠ .no) (hfree : Free c) (hfresh : w.response = none)
    (haborted : w.aborted = false)
    (hanswered : apdu.isAnswered yaz = true) (io : Io OtherInfo) :
    Receiving yaz conf host destroyed p package
      (c.send yaz (package.sends yaz conf w.origin p apdu)).1 { w with io := io } forced apdu := by
  have hsend : c.send yaz (package.sends yaz conf w.origin p apdu) =
      ({ c with
          timeElapsed := 0
          waiting := true
          sent := c.sent ++ [package.sends yaz conf w.origin p apdu]
          exchange := c.exchange.ask (package.sends yaz conf w.origin p apdu) }, .receiving) := by
    unfold Conn.send
    rw [if_pos]
    exact (isAnswered_prepare w.origin apdu).trans hanswered
  rw [hsend]
  refine ⟨hstays, hown, hrequest, hclosed, hconnected, by simp, ?_, ?_, ?_⟩
  · rintro rfl x hx
    rcases List.mem_append.mp hx with hx | hx
    · exact hfree.finished x hx
    · rw [List.mem_singleton.mp hx]
      intro heq
      exact Package.apdu_ne_finished hrequest ((prepare_finished _ _).mp heq)
  · exact Exchange.getLast_ask _ _
  · exact .inl ⟨rfl, hfree.settled.ask _, hfresh, haborted⟩

/-- What needs no response is over when it is sent. -/
theorem Served.send (hrequest : package.apdu? false = some apdu) (hopen : Open c)
    (hfresh : w.response = none) (haborted : w.aborted = false)
    (hanswered : apdu.isAnswered yaz = false) (io : Io OtherInfo) :
    Served yaz conf host destroyed p package
      (c.send yaz (package.sends yaz conf w.origin p apdu)).1 { w with io := io } := by
  have hsend : c.send yaz (package.sends yaz conf w.origin p apdu) =
      ({ c with
          timeElapsed := 0
          waiting := true
          sent := c.sent ++ [package.sends yaz conf w.origin p apdu] }, .done) := by
    unfold Conn.send
    rw [if_neg]
    rw [Package.sends, isAnswered_prepare, hanswered]
    exact Bool.false_ne_true
  rw [hsend]
  refine .unanswered apdu hrequest hanswered ⟨hopen.connected, hopen.settled, by simp, ?_⟩ hfresh
    haborted
  intro x hx
  rcases List.mem_append.mp hx with hx | hx
  · exact hopen.finished x hx
  · rw [List.mem_singleton.mp hx]
    intro heq
    exact Package.apdu_ne_finished hrequest ((prepare_finished _ _).mp heq)

/-! ## The parts of `send_and_receive` -/

theorem send_io (s : Sent OtherInfo) :
    (c.send yaz s).2 = if s.apdu.isAnswered yaz then .receiving else .done := by
  unfold Conn.send
  split <;> rfl

/-- A request is sent on a connection. -/
theorem Works.send (forced : Bool) (hstays : destroyed = false)
    (hown : c.package = if forced then none else some p)
    (hrequest : package.apdu? forced = some apdu)
    (hclosed : forced = true → package.closed = true ∧ c.hasClosed = true)
    (hconnected : c.connected ≠ .no) (hfree : Free c)
    (hsent : c.sent = [] → apdu.isInit = true) (hresponse : w.response = none)
    (haborted : w.aborted = false) :
    Works yaz conf host destroyed p package
      (c.send yaz (package.sends yaz conf w.origin p apdu)).1
      { w with io := (c.send yaz (package.sends yaz conf w.origin p apdu)).2 } := by
  have hio : (c.send yaz (package.sends yaz conf w.origin p apdu)).2 = _ := send_io _
  have hsame : (package.sends yaz conf w.origin p apdu).apdu.isAnswered yaz =
      apdu.isAnswered yaz := isAnswered_prepare w.origin apdu
  rw [hsame] at hio
  cases hanswered : apdu.isAnswered yaz with
  | true =>
    rw [hanswered, if_pos rfl] at hio
    exact .receiving forced apdu hio (.send hstays hown hrequest hclosed
      hconnected hfree hresponse haborted hanswered _)
  | false =>
    rw [hanswered, if_neg Bool.false_ne_true] at hio
    have hforced : forced = false := by
      cases forced with
      | false => rfl
      | true =>
        cases hrequest
        cases hanswered
    subst hforced
    have hne : c.sent ≠ [] := by
      intro hnil
      rw [Apdu.isAnswered_of_isInit (hsent hnil)] at hanswered
      cases hanswered
    exact .done hio (.send hrequest
      ⟨hconnected, hfree.settled, hne, hfree.finished⟩ hresponse haborted hanswered _)

theorem Works.enter (h : Works yaz conf host destroyed p package c w) (hio : w.io = .entering)
    (hstays : destroyed = false) (clientFails : Bool) :
    Works yaz conf host destroyed p package
      (package.enter yaz conf p clientFails c w).1 (package.enter yaz conf p clientFails c w).2 := by
  obtain ⟨hfresh, hstart⟩ : Fresh w ∧ (Open c ∨
      Blank c ∧ c.connected = .no ∧ ∃ otherInfo, package.request = some (.init otherInfo)) := by
    cases h with
    | entering hfresh hstart =>
      refine ⟨hfresh, hstart.resolve_left ?_⟩
      rw [hstays]
      exact Bool.false_ne_true
    | connecting apdu hio' => rw [hio] at hio'; cases hio'
    | receiving forced apdu hio' => rw [hio] at hio'; cases hio'
    | done hio' => rw [hio] at hio'; cases hio'
  unfold Package.enter
  rcases hstart with hopen | ⟨hblank, hno, otherInfo, hrequest⟩
  · cases hforced : package.isForced conf c with
    | true =>
      obtain ⟨⟨⟨hclosed, -⟩, -⟩, -⟩ : ((package.closed = true ∧ c.connected ≠ .no) ∧
          c.hasClosed = false) ∧ conf.forceClose = true := by
        simpa [Package.isForced] using hforced
      have happdu : package.apdu? true = some .finished := rfl
      dsimp only
      rw [happdu]
      dsimp only
      rw [if_neg hopen.connected]
      exact .send true hstays rfl rfl
        (fun _ => ⟨hclosed, by simp [Apdu.isClose]⟩) hopen.connected
        ⟨hopen.settled, hopen.finished⟩ (fun hnil => absurd hnil hopen.sent) hfresh.response
        hfresh.aborted
    | false =>
      cases happdu : package.apdu? false with
      | none =>
        dsimp only
        rw [happdu]
        exact .done rfl (.nothing happdu ⟨hopen.connected, hopen.settled, hopen.sent,
          hopen.finished⟩ hfresh.response hfresh.aborted)
      | some apdu =>
        dsimp only
        rw [happdu]
        dsimp only
        rw [if_neg hopen.connected]
        exact .send false hstays rfl happdu (fun hf => by cases hf) hopen.connected
          ⟨hopen.settled, hopen.finished⟩ (fun hnil => absurd hnil hopen.sent) hfresh.response
          hfresh.aborted
  · have hforced : package.isForced conf c = false := by simp [Package.isForced, hno]
    have happdu := Package.apdu_of_init hrequest
    rw [hforced]
    dsimp only
    rw [happdu]
    dsimp only
    rw [if_pos hno]
    cases clientFails with
    | true => exact .done rfl (.aborted _ .peerAbort happdu hstays (.inl hno) rfl rfl)
    | false =>
      exact .connecting _ rfl ⟨hstays, ⟨hblank.sent, hblank.exchange⟩, rfl, happdu, rfl,
        .inl ⟨rfl, hno, hfresh.response, hfresh.aborted⟩⟩

theorem Line.new (session : Option Nat) : Line yaz session (Conn.new : Conn OtherInfo ρ) where
  inTurn := .new
  asked := rfl
  session x hx := by cases hx
  first x hx := by cases hx
  finished n x hx := by cases hx

/-- Only what has been sent and answered matters. -/
theorem Line.congr {session : Option Nat} {c' : Conn OtherInfo ρ} (h : Line yaz session c)
    (hsent : c'.sent = c.sent) (hasked : c'.exchange.asked = c.exchange.asked)
    (hturn : c'.exchange.InTurn) : Line yaz session c' where
  inTurn := hturn
  asked := by rw [hasked, hsent, h.asked]
  session x hx := h.session x (hsent ▸ hx)
  first x hx := h.first x (hsent ▸ hx)
  finished n x hx hfinished := by
    rw [hsent] at hx ⊢
    exact h.finished n x hx hfinished

theorem Line.enter {session : Option Nat} (h : Line yaz session c)
    (hsession : session = some package.session) (hfree : c.connected ≠ .no → Open c)
    (clientFails : Bool) : Line yaz session (package.enter yaz conf p clientFails c w).1 := by
  unfold Package.enter
  dsimp only
  cases package.apdu? (package.isForced conf c) with
  | none => exact h.congr rfl rfl h.inTurn
  | some apdu =>
    dsimp only
    split
    · split
      · exact h.congr rfl rfl h.inTurn
      · exact h.congr rfl rfl h.inTurn
    · rename_i hconnected
      have hopen := hfree hconnected
      have hline : Line yaz session { c with
          package := if package.isForced conf c then none else some p
          hasClosed := c.hasClosed || apdu.isClose yaz
          timeElapsed := 0
          waiting := true } := h.congr rfl rfl h.inTurn
      exact hline.send ⟨hopen.settled, hopen.finished⟩ hsession fun hnil => absurd hnil hopen.sent

/-! ## Events -/

/-- What no event changes. -/
structure Undisturbed (c c' : Conn OtherInfo ρ) : Prop where
  sent : c'.sent = c.sent
  asked : c'.exchange.asked = c.exchange.asked
  hasClosed : c'.hasClosed = c.hasClosed
  inTurn : c.exchange.InTurn → c'.exchange.InTurn

theorem Conn.recvAll_undisturbed {gdus : List (Answer ρ)}
    (h : gdus.length ≤ c.exchange.pending.length) : Undisturbed c (c.recvAll host gdus).1 := by
  induction gdus generalizing c with
  | nil => exact ⟨rfl, rfl, rfl, id⟩
  | cons gdu gdus ih =>
    have hne : c.exchange.pending ≠ [] := by
      rw [← List.length_pos_iff]
      exact Nat.lt_of_lt_of_le (Nat.succ_pos _) h
    have htake : (c.recvGDU host gdu).1.exchange.pending = c.exchange.pending.tail := by
      simp [Conn.recvGDU, Exchange.pending, Exchange.take]
    have hrest := ih (c := (c.recvGDU host gdu).1) (by
      rw [htake, List.length_tail]
      exact Nat.le_sub_one_of_lt h)
    exact ⟨hrest.sent, hrest.asked, hrest.hasClosed, fun hturn =>
      hrest.inTurn (hturn.take hne)⟩

theorem Conn.processEvent_undisturbed {e : Event}
    {r : Conn OtherInfo ρ × (Work OtherInfo ρ → Work OtherInfo ρ)}
    (h : c.processEvent conf host e = some r) : Undisturbed c r.1 := by
  cases e with
  | connect =>
    rw [Conn.processEvent] at h
    split at h
    · cases h
      exact ⟨rfl, rfl, rfl, id⟩
    · cases h
  | fail =>
    cases h
    exact ⟨rfl, rfl, rfl, id⟩
  | timeout =>
    rw [Conn.processEvent, Conn.timeoutNotify] at h
    split at h
    · cases h
      exact ⟨rfl, rfl, rfl, id⟩
    · cases h
      exact ⟨rfl, rfl, rfl, id⟩
  | receive more =>
    rw [Conn.processEvent] at h
    split at h
    · rename_i hmore
      cases h
      refine Conn.recvAll_undisturbed ?_
      rw [List.length_take]
      exact Nat.min_le_right _ _
    · cases h

/-- What an event makes of the package that is in `send_and_receive`. -/
def Conn.noted (c : Conn OtherInfo ρ) (f : Work OtherInfo ρ → Work OtherInfo ρ)
    (w : Work OtherInfo ρ) : Work OtherInfo ρ :=
  if c.package.isSome then f w else w

theorem Connecting.event (h : Connecting destroyed p package c w apdu)
    (hwaiting : c.waiting = true) {e : Event}
    {r : Conn OtherInfo ρ × (Work OtherInfo ρ → Work OtherInfo ρ)}
    (hevent : c.processEvent conf host e = some r) :
    Connecting destroyed p package r.1 (r.2 w) apdu ∧ (r.2 w).io = w.io := by
  obtain ⟨-, hno, hresponse, haborted⟩ : c.waiting = true ∧ c.connected = .no ∧
      w.response = none ∧ w.aborted = false := by
    rcases h.now with hnow | ⟨hnow, -⟩ | ⟨hnow, -⟩
    · exact hnow
    · rw [hwaiting] at hnow
      cases hnow
    · rw [hwaiting] at hnow
      cases hnow
  cases e with
  | connect =>
    rw [Conn.processEvent, if_pos hno] at hevent
    cases hevent
    refine ⟨⟨h.stays, ⟨h.blank.sent, h.blank.exchange⟩, h.own, h.request, h.isInit,
      .inr (.inl ⟨rfl, ?_, hresponse, haborted⟩)⟩, rfl⟩
    intro hconnected
    cases hconnected
  | fail =>
    cases hevent
    exact ⟨⟨h.stays, ⟨h.blank.sent, h.blank.exchange⟩, h.own, h.request, h.isInit,
      .inr (.inr ⟨rfl, hno, ⟨_, rfl⟩, rfl⟩)⟩, rfl⟩
  | timeout =>
    rw [Conn.processEvent, Conn.timeoutNotify] at hevent
    split at hevent
    · cases hevent
      exact ⟨⟨h.stays, ⟨h.blank.sent, h.blank.exchange⟩, h.own, h.request, h.isInit,
        .inr (.inr ⟨rfl, hno, ⟨_, rfl⟩, rfl⟩)⟩, rfl⟩
    · cases hevent
      exact ⟨⟨h.stays, ⟨h.blank.sent, h.blank.exchange⟩, h.own, h.request, h.isInit,
        .inl ⟨hwaiting, hno, hresponse, haborted⟩⟩, rfl⟩
  | receive more =>
    rw [Conn.processEvent, h.blank.exchange] at hevent
    split at hevent
    · rename_i hmore
      cases hmore
    · cases hevent

theorem Receiving.event {forced : Bool}
    (h : Receiving yaz conf host destroyed p package c w forced apdu)
    (hwaiting : c.waiting = true) (hturn : c.exchange.InTurn) {e : Event}
    {r : Conn OtherInfo ρ × (Work OtherInfo ρ → Work OtherInfo ρ)}
    (hevent : c.processEvent conf host e = some r) :
    Receiving yaz conf host destroyed p package r.1 (if forced then w else r.2 w) forced apdu ∧
      (r.2 w).io = w.io := by
  obtain ⟨-, hpending, hresponse, haborted⟩ : c.waiting = true ∧ c.exchange.Waits ∧
      w.response = none ∧ w.aborted = false := by
    rcases h.now with hnow | ⟨hnow, -⟩ | ⟨hnow, -⟩
    · exact hnow
    · rw [hwaiting] at hnow
      cases hnow
    · rw [hwaiting] at hnow
      cases hnow
  -- the connection fails, or there is no response in time
  have hfailed : ∀ (reason : CloseReason) (elapsed : Nat),
      Receiving yaz conf host destroyed p package
        { c with
          timeElapsed := elapsed
          waiting := false } (if forced then w else w.abort reason) forced apdu := by
    intro reason elapsed
    refine ⟨h.stays, h.own, h.request, h.closed, h.connected, h.sent, h.finished, ?_,
      .inr (.inr ⟨rfl, hpending, ?_, reason, ?_⟩)⟩
    · cases forced with
      | true => exact h.last
      | false => exact h.last
    · cases forced with
      | true => exact haborted
      | false => rfl
    · cases forced with
      | true => exact hresponse
      | false => rfl
  cases e with
  | connect =>
    rw [Conn.processEvent, if_neg h.connected] at hevent
    cases hevent
  | fail =>
    cases hevent
    exact ⟨hfailed .peerAbort c.timeElapsed, rfl⟩
  | timeout =>
    rw [Conn.processEvent, Conn.timeoutNotify] at hevent
    split at hevent
    · cases hevent
      exact ⟨hfailed _ _, rfl⟩
    · cases hevent
      refine ⟨⟨h.stays, h.own, h.request, h.closed, h.connected, h.sent, h.finished, ?_,
        .inl ⟨hwaiting, hpending, ?_, ?_⟩⟩, rfl⟩
      · cases forced with
        | true => exact h.last
        | false => exact h.last
      · cases forced with
        | true => exact hresponse
        | false => exact hresponse
      · cases forced with
        | true => exact haborted
        | false => exact haborted
  | receive more =>
    rw [Conn.processEvent] at hevent
    split at hevent
    · rename_i hmore
      obtain ⟨gdu, hone, hhead⟩ := hturn.take_pending hmore
      rw [hone] at hevent
      cases hevent
      obtain ⟨hsettled, hlast⟩ := hpending.take hturn h.last hhead
      refine ⟨⟨h.stays, h.own, h.request, h.closed, ?_, h.sent, h.finished, ?_,
        .inr (.inl ⟨rfl, ⟨gdu, hsettled, ?_, ?_⟩, ?_⟩)⟩, rfl⟩
      · show (if c.package.isSome && gdu.isInit then Connected.rest else c.connected) ≠ .no
        split
        · intro hconnected
          cases hconnected
        · exact h.connected
      · cases forced with
        | true => exact h.last
        | false => exact h.last
      · cases forced with
        | true => exact hlast
        | false => exact hlast
      · cases forced with
        | true => exact hresponse
        | false => rfl
      · cases forced with
        | true => exact haborted
        | false => exact haborted
    · cases hevent

theorem Works.event (h : Works yaz conf host destroyed p package c w)
    (hwaits : w.io.waits = true) (hwaiting : c.waiting = true) (hturn : c.exchange.InTurn)
    {e : Event} {r : Conn OtherInfo ρ × (Work OtherInfo ρ → Work OtherInfo ρ)}
    (hevent : c.processEvent conf host e = some r) :
    Works yaz conf host destroyed p package r.1 (c.noted r.2 w) ∧
      ∀ q, c.package = some q → q = p := by
  cases h with
  | entering hfresh _ =>
    rw [hfresh.io] at hwaits
    cases hwaits
  | done hio _ =>
    rw [hio] at hwaits
    cases hwaits
  | connecting apdu hio hc =>
    obtain ⟨hnext, hsame⟩ := hc.event hwaiting hevent
    rw [Conn.noted, hc.own]
    refine ⟨.connecting apdu (hsame.trans hio) hnext, ?_⟩
    intro q hq
    exact (Option.some.inj hq).symm
  | receiving forced apdu hio hr =>
    obtain ⟨hnext, hsame⟩ := hr.event hwaiting hturn hevent
    rw [Conn.noted, hr.own]
    cases forced with
    | true => exact ⟨.receiving true apdu hio hnext, fun q hq => by cases hq⟩
    | false =>
      refine ⟨.receiving false apdu (hsame.trans hio) hnext, ?_⟩
      intro q hq
      exact (Option.some.inj hq).symm

/-! ## The end of a wait -/

theorem Works.leave (h : Works yaz conf host destroyed p package c w)
    (hwaits : w.io.waits = true) (hover : c.waiting = false ∨ destroyed = true) :
    Works yaz conf host destroyed p package (package.leave yaz conf p c w).1
      (package.leave yaz conf p c w).2 := by
  cases h with
  | entering hfresh _ =>
    rw [hfresh.io] at hwaits
    cases hwaits
  | done hio _ =>
    rw [hio] at hwaits
    cases hwaits
  | connecting apdu hio hc =>
    have hwaiting : c.waiting = false := hover.resolve_right (by simp [hc.stays])
    rcases hc.now with ⟨hnow, -⟩ | ⟨-, hconnected, hresponse, haborted⟩ |
      ⟨-, hno, ⟨reason, hresponse⟩, haborted⟩
    · rw [hwaiting] at hnow
      cases hnow
    · rw [Package.leave, hio]
      dsimp only
      rw [if_neg hconnected]
      exact .send false hc.stays hc.own hc.request (fun hf => by cases hf) hconnected
        hc.blank.free (fun _ => hc.isInit) hresponse haborted
    · rw [Package.leave, hio]
      dsimp only
      rw [if_pos hno]
      exact .done rfl (.aborted apdu reason hc.request hc.stays (.inl hno) hresponse haborted)
  | receiving forced apdu hio hr =>
    have hwaiting : c.waiting = false := hover.resolve_right (by simp [hr.stays])
    have hleave : package.leave yaz conf p c w = (c, { w with io := .done }) := by
      rw [Package.leave, hio]
    rw [hleave]
    refine .done rfl ?_
    rcases hr.now with ⟨hnow, -⟩ | ⟨-, ⟨gdu, hsettled, hlast, hresponse⟩, haborted⟩ |
      ⟨-, hpending, haborted, reason, hresponse⟩
    · rw [hwaiting] at hnow
      cases hnow
    · cases forced with
      | true => exact .forced (hr.closed rfl).1 (hr.closed rfl).2 hresponse haborted
      | false =>
        exact .answered apdu gdu hr.request ⟨hr.connected, hsettled, hr.sent, hr.finished rfl⟩
          hlast hresponse haborted
    · cases forced with
      | true => exact .forced (hr.closed rfl).1 (hr.closed rfl).2 hresponse haborted
      | false =>
        exact .aborted apdu reason hr.request hr.stays (.inr hpending) hresponse haborted

theorem Line.leave {session : Option Nat} (h : Line yaz session c)
    (hsession : session = some package.session)
    (hworks : Works yaz conf host destroyed p package c w) :
    Line yaz session (package.leave yaz conf p c w).1 := by
  unfold Package.leave
  split
  · rename_i apdu hio
    split
    · exact h
    · cases hworks with
      | entering hfresh _ =>
        rw [hfresh.io] at hio
        cases hio
      | receiving forced apdu' hio' _ =>
        rw [hio'] at hio
        cases hio
      | done hio' _ =>
        rw [hio'] at hio
        cases hio
      | connecting apdu' hio' hc =>
        rw [hio'] at hio
        cases hio
        exact h.send hc.blank.free hsession fun _ => (isInit_prepare _ _).trans hc.isInit
  · exact h

/-! ## What a target sends -/

theorem Open.not_answer (h : Open c) (hturn : c.exchange.InTurn) :
    ¬ c.exchange.answers.length < c.exchange.asked.length := by
  have hsettled : c.exchange.taken = c.exchange.asked.length := h.settled
  have hle := hturn.taken_le
  omega

theorem Blank.not_answer (h : Blank c) :
    ¬ c.exchange.answers.length < c.exchange.asked.length := by
  rw [h.exchange]
  exact Nat.not_lt_zero _

theorem Served.answer (h : Served yaz conf host destroyed p package c w)
    (hturn : c.exchange.InTurn)
    (hlt : c.exchange.answers.length < c.exchange.asked.length) (gdu : Answer ρ) :
    Served yaz conf host destroyed p package { c with exchange := c.exchange.answer gdu } w := by
  cases h with
  | destroyed hdestroyed hresponse haborted => exact .destroyed hdestroyed hresponse haborted
  | nothing _ hopen _ _ => exact absurd hlt (hopen.not_answer hturn)
  | aborted apdu reason hrequest hstays hover hresponse haborted =>
    exact .aborted apdu reason hrequest hstays hover hresponse haborted
  | answered apdu gdu' _ hopen _ _ _ => exact absurd hlt (hopen.not_answer hturn)
  | unanswered apdu _ _ hopen _ _ => exact absurd hlt (hopen.not_answer hturn)
  | forced hclosed hhas hresponse haborted => exact .forced hclosed hhas hresponse haborted

theorem Works.answer (h : Works yaz conf host destroyed p package c w)
    (hturn : c.exchange.InTurn)
    (hlt : c.exchange.answers.length < c.exchange.asked.length) (gdu : Answer ρ) :
    Works yaz conf host destroyed p package { c with exchange := c.exchange.answer gdu } w := by
  cases h with
  | entering hfresh hstart =>
    rcases hstart with hdestroyed | hopen | ⟨hblank, -⟩
    · exact .entering hfresh (.inl hdestroyed)
    · exact absurd hlt (hopen.not_answer hturn)
    · exact absurd hlt hblank.not_answer
  | connecting apdu hio hc => exact absurd hlt hc.blank.not_answer
  | receiving forced apdu hio hr =>
    refine .receiving forced apdu hio ⟨hr.stays, hr.own, hr.request, hr.closed, hr.connected,
      hr.sent, hr.finished, hr.last, ?_⟩
    rcases hr.now with hnow | ⟨-, ⟨gdu', hsettled, -⟩, -⟩ | hnow
    · exact .inl hnow
    · have hopen : c.exchange.taken = c.exchange.asked.length := hsettled
      have hle := hturn.taken_le
      omega
    · exact .inr (.inr hnow)
  | done hio hserved => exact .done hio (hserved.answer hturn hlt gdu)

/-! ## The end of `send_and_receive` -/

theorem Package.sendAndReceive_request (package : Package OtherInfo) (as : Assoc)
    (aborted : Bool) : (package.sendAndReceive as aborted).request = package.request := by
  unfold Package.sendAndReceive
  split
  · rfl
  · split <;> rfl

theorem Package.sendAndReceive_closed {as : Assoc} (haborted : package.closed = true) (b : Bool) :
    (package.sendAndReceive as b).closed = true := by
  unfold Package.sendAndReceive
  split
  · exact haborted
  · split
    · simp [haborted]
    · simp [haborted]
    · exact haborted
    · exact haborted

/-- The session of a package whose request has failed is closed. -/
theorem Package.sendAndReceive_aborted {as : Assoc} (hstays : as.destroyed = false)
    (hrequest : package.apdu? false = some apdu) :
    (package.sendAndReceive as true).closed = true := by
  obtain ⟨gdu, hgdu, happdu⟩ := Option.bind_eq_some_iff.mp hrequest
  unfold Package.sendAndReceive
  rw [if_neg (by simp [hstays]), hgdu]
  cases gdu with
  | init otherInfo => simp
  | other encoding => simp
  | http encoding => cases happdu

theorem Served.sendAndReceive {as : Assoc}
    (h : Served yaz conf as.host as.destroyed p package c w) :
    Served yaz conf as.host as.destroyed p (package.sendAndReceive as w.aborted) c w ∧
      (w.aborted = true → (package.sendAndReceive as w.aborted).closed = true) := by
  have hrequest : (package.sendAndReceive as w.aborted).apdu? false = package.apdu? false := by
    rw [Package.apdu?, Package.apdu?, Package.sendAndReceive_request]
  have hsends : (package.sendAndReceive as w.aborted).sends yaz conf w.origin p =
      package.sends yaz conf w.origin p := by
    funext apdu
    rw [Package.sends, Package.sends, Inv.sendAndReceive_session]
  have hnot : w.aborted = false → w.aborted = true →
      (package.sendAndReceive as w.aborted).closed = true := by
    intro hfalse htrue
    rw [hfalse] at htrue
    cases htrue
  cases h with
  | destroyed hdestroyed hresponse haborted =>
    exact ⟨.destroyed hdestroyed hresponse haborted, hnot haborted⟩
  | nothing happdu hopen hresponse haborted =>
    exact ⟨.nothing (hrequest.trans happdu) hopen hresponse haborted, hnot haborted⟩
  | aborted apdu reason happdu hstays hover hresponse haborted =>
    refine ⟨.aborted apdu reason (hrequest.trans happdu) hstays hover hresponse haborted, ?_⟩
    intro _
    rw [haborted]
    exact Package.sendAndReceive_aborted hstays happdu
  | answered apdu gdu happdu hopen hlast hresponse haborted =>
    refine ⟨.answered apdu gdu (hrequest.trans happdu) hopen ?_ hresponse haborted,
      hnot haborted⟩
    rw [hsends]
    exact hlast
  | unanswered apdu happdu hanswered hopen hresponse haborted =>
    exact ⟨.unanswered apdu (hrequest.trans happdu) hanswered hopen hresponse haborted,
      hnot haborted⟩
  | forced hclosed hhas hresponse haborted =>
    exact ⟨.forced (Package.sendAndReceive_closed hclosed _) hhas hresponse haborted,
      hnot haborted⟩

/-- The connection of a session that goes on is open when the package leaves. -/
theorem Served.leaves_open (h : Served yaz conf host destroyed p package c w)
    (haborted : w.aborted = true → package.closed = true) :
    (destroyed || package.closed) = true ∨ Open c := by
  cases h with
  | destroyed hdestroyed _ _ => exact .inl (by simp [hdestroyed])
  | nothing _ hopen _ _ => exact .inr hopen
  | aborted apdu reason _ _ _ _ htrue => exact .inl (by simp [haborted htrue])
  | answered apdu gdu _ hopen _ _ _ => exact .inr hopen
  | unanswered apdu _ _ hopen _ _ => exact .inr hopen
  | forced hclosed _ _ _ => exact .inl (by simp [hclosed])

end Z3950Client
end Metaproxy
