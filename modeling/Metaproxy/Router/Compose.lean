import Metaproxy.Lib.Stage
import Metaproxy.Router

/-!
# Router.Compose

Filters one after the other, and routes with names. A filter is a stage: it goes on to what follows
or to a route.

* `served_iff` — what a move comes back with is the product of the filters that are to come, as far
  as the routes that are moved to come back.
* `served` — they do if no route leads back to itself.
-/

namespace Metaproxy
namespace Router

open Lib

variable {φ β : Type} {process : Process φ β} {routes : String → List φ}

/-- The route that `move` is called with, if it is given one. -/
def routeName (route : String) : Option String := if route = "" then none else some route

def stage (process : Process φ β) (filter : φ) : Stage String β := fun b =>
  (process filter b).through fun c => .ask (routeName c.route, c.body)

/-- A filter that stands for the stages behind it. -/
def stages (process : Process φ β) (filters : List φ) : Stage String β :=
  Stage.chain (filters.map (stage process))

/-- Moves that go on, and moves to routes. -/
def aheadOf (routes : String → List φ) : Ahead φ := fun filters route =>
  match routeName route with
  | none => filters
  | some route => routes route

theorem stages_cons (filter : φ) (rest : List φ) (b : β) (answer : Option String × β → Option β) :
    (stages process (filter :: rest) b).run answer = (process filter b).run fun c =>
      (Stage.goOn (stages process rest) (routeName c.route, c.body)).run answer := by
  rw [stages, List.map_cons, Stage.chain, Stage.seq, stage, Program.through_through,
    Program.run_through]
  exact congrArg (fun h => Program.run h _) (funext fun c => by rw [Program.ask_through]; rfl)

theorem stages_nil (b : β) (n : Nat) :
    (stages process [] b).run (Stage.answer (fun route => stages process (routes route)) n) =
      some b := by
  cases n <;> rfl

/-- What is ahead of a move answers it, at a depth where what is nested in it is answered. -/
theorem run_of_serve {n : Nat} {filters : List φ} {route : String} {b b' : β}
    (h : serve (aheadOf routes) process n filters route b = some b') :
    (Stage.goOn (stages process filters) (routeName route, b)).run
      (Stage.answer (fun route => stages process (routes route)) n) = some b' := by
  induction n generalizing filters route b b' with
  | zero => cases h
  | succ n ih =>
    -- the filters that are ahead, one of which the others are nested in
    have hahead (filters : List φ) {b b' : β} (h : first process (fun rest c =>
          serve (aheadOf routes) process n rest c.route c.body) filters b = some b') :
        (stages process filters b).run
          (Stage.answer (fun route => stages process (routes route)) n) = some b' := by
      cases filters with
      | nil => exact (stages_nil b n).trans h
      | cons filter rest =>
        rw [stages_cons]
        exact Program.run_mono (fun c o ho => ih ho) h
    rw [serve, aheadOf] at h
    cases hroute : routeName route with
    | none =>
      rw [hroute] at h
      exact Program.run_mono (fun i o => Stage.answer_mono (Nat.le_succ n)) (hahead filters h)
    | some route' =>
      rw [hroute] at h
      rw [Stage.goOn, Program.ask, Program.run, Stage.answer, hahead (routes route') h]
      rfl

/-- A move to a route is one on the route. -/
theorem serve_route {route : String} (hroute : routeName route = some route) (n : Nat)
    (filters : List φ) (b : β) :
    serve (aheadOf routes) process n filters route b =
      serve (aheadOf routes) process n (routes route) "" b := by
  cases n with
  | zero => rfl
  | succ n =>
    rw [serve, serve, aheadOf, hroute]
    rfl

theorem routeName_cases (route : String) :
    route = "" ∧ routeName route = none ∨ routeName route = some route := by
  rw [routeName]
  by_cases h : route = ""
  · exact .inl ⟨h, if_pos h⟩
  · exact .inr (if_neg h)

/-- Filters that are answered at some depth, when moves to routes are. -/
theorem serve_of_goOn {n : Nat} (hjump : ∀ route b b',
      Stage.answer (fun route => stages process (routes route)) n (some route, b) = some b' →
      ∃ m, serve (aheadOf routes) process m (routes route) "" b = some b')
    {filters : List φ} {b b' : β} (h : (stages process filters b).run
      (Stage.answer (fun route => stages process (routes route)) n) = some b') :
    ∃ m, serve (aheadOf routes) process m filters "" b = some b' := by
  induction filters generalizing b b' with
  | nil => exact ⟨1, (stages_nil b n).symm.trans h⟩
  | cons filter rest ih =>
    rw [stages_cons] at h
    have hcall (c : Call β) (o : β) (ho : (Stage.goOn (stages process rest)
        (routeName c.route, c.body)).run (Stage.answer (fun route => stages process (routes route))
          n) = some o) :
        ∃ m, serve (aheadOf routes) process m rest c.route c.body = some o := by
      rcases routeName_cases c.route with ⟨hempty, hnone⟩ | hsome
      · rw [hnone] at ho
        rw [hempty]
        exact ih ho
      · rw [hsome] at ho
        obtain ⟨o', ho', hret⟩ := Option.bind_eq_some_iff.mp ho
        cases hret
        obtain ⟨m, hm⟩ := hjump c.route c.body o ho'
        exact ⟨m, (serve_route hsome m rest c.body).trans hm⟩
    have hmono (m n : Nat) (c : Call β) (o : β) (hle : m ≤ n)
        (ho : serve (aheadOf routes) process m rest c.route c.body = some o) :
        serve (aheadOf routes) process n rest c.route c.body = some o := serve_mono hle ho
    obtain ⟨m, hm⟩ := Program.run_limit hmono hcall h
    exact ⟨m + 1, hm⟩

theorem serve_of_run {n : Nat} {filters : List φ} {b b' : β}
    (h : (stages process filters b).run
      (Stage.answer (fun route => stages process (routes route)) n) = some b') :
    ∃ m, serve (aheadOf routes) process m filters "" b = some b' := by
  induction n generalizing filters b b' with
  | zero =>
    refine serve_of_goOn (fun route b b' hjump => ?_) h
    cases hjump
  | succ n ih =>
    refine serve_of_goOn (fun route b b' hjump => ?_) h
    rw [Stage.answer] at hjump
    exact ih hjump

/-- A move comes back with what the product of the filters returns, where moves to routes are
answered by the products of the routes. -/
theorem served_iff {filters : List φ} {b b' : β} :
    (∃ n, serve (aheadOf routes) process n filters "" b = some b') ↔
      ∃ n, (stages process filters b).run
        (Stage.answer (fun route => stages process (routes route)) n) = some b' := by
  constructor
  · rintro ⟨n, h⟩
    exact ⟨n, run_of_serve h⟩
  · rintro ⟨n, h⟩
    exact serve_of_run h

/-- The moves of a filter on a route lead on, or to routes of lower rank. -/
def Descends (process : Process φ β) (rank : String → Nat) (n : Nat) (filter : φ) : Prop :=
  ∀ b, (process filter b).Spec (fun c => c.route = "" ∨ rank c.route < n) (fun _ _ => True)
    fun _ => True

theorem stages_below {rank : String → Nat} {n : Nat} {filters : List φ}
    (h : ∀ filter ∈ filters, Descends process rank n filter) (b : β) :
    (stages process filters b).Spec (Stage.Below rank n) (fun _ _ => True) fun _ => True := by
  refine Stage.chain_below (fun s hs b => ?_) b
  obtain ⟨filter, hfilter, rfl⟩ := List.mem_map.mp hs
  refine (h filter hfilter b).through fun c hc => ⟨fun route hroute => ?_, fun _ _ => trivial⟩
  rcases routeName_cases c.route with ⟨-, hnone⟩ | hsome
  · rw [hnone] at hroute
    cases hroute
  · have hne : c.route ≠ "" := by
      intro hempty
      rw [hempty] at hsome
      cases hsome
    rw [hsome] at hroute
    cases hroute
    exact hc.resolve_left hne

/-- Routes that only lead to routes of lower rank: every move comes back. -/
theorem served {rank : String → Nat}
    (h : ∀ route, ∀ filter ∈ routes route, Descends process rank (rank route) filter)
    {n : Nat} {filters : List φ} (hfilters : ∀ filter ∈ filters, Descends process rank n filter)
    (b : β) :
    ∃ n b', serve (aheadOf routes) process n filters "" b = some b' := by
  have hall := (stages_below hfilters b).isSome fun i hi =>
    Stage.answer_isSome (fun route => stages_below (h route)) n hi
  obtain ⟨b', hb'⟩ := Option.isSome_iff_exists.mp hall
  obtain ⟨m, hm⟩ := serve_of_run hb'
  exact ⟨m, b', hm⟩

end Router
end Metaproxy
