import Metaproxy.Lib.Program

/-!
# Router

`package.cpp` over the interface of `router.hpp`: how packages get from filter to filter.

A position is changed by each move, and a filter can have more packages on their way at once, with
positions of their own (`copy_filter`). When a filter moves its own package last, what it is answered
depends on the filters that are to come only (`move_eq_serve`): positions do nothing that a function
from bodies to bodies does not.

A filter is a program whose calls are moves. The body is all that a filter reads and changes, what it
shares with other filters included.
-/

namespace Metaproxy

open Lib

variable {φ β : Type}

/-- A `Router` and its `RoutePos`. -/
structure Router (φ : Type) where
  Pos : Type
  createpos : Option Pos
  /-- The position after a move and the filter, if any. `none` is a move that is not defined. -/
  move : Pos → String → Option (Pos × Option φ)
  clone : Pos → Pos

namespace Router

structure Package (R : Router φ) (β : Type) where
  routePos : Option R.Pos
  body : β

/-- A filter moves its own package, or a new one that has its route position. -/
structure Call (β : Type) where
  own : Bool
  route : String
  body : β
deriving DecidableEq, Repr

/-- `process` of each filter, where the answer to a call is the body of the package that was moved. -/
abbrev Process (φ β : Type) := φ → β → Program (Call β) β β

variable (R : Router φ)

/-- A filter at work, with its route position. -/
def work (move : R.Package β → String → Option (R.Package β)) (routePos : Option R.Pos) :
    Program (Call β) β β → Option (R.Package β)
  | .ret b => some ⟨routePos, b⟩
  | .call c k =>
    if c.own then
      (move ⟨routePos, c.body⟩ c.route).bind fun package =>
        work move package.routePos (k package.body)
    else
      -- `clone` follows the pointer
      routePos.bind fun pos => (move ⟨some (R.clone pos), c.body⟩ c.route).bind fun package =>
        work move routePos (k package.body)

/-- `Package::move`. The number bounds how deep moves are nested. -/
def Package.move (process : Process φ β) : Nat → R.Package β → String → Option (R.Package β)
  | 0, _, _ => none
  | n + 1, package, route =>
    match package.routePos with
    | none => some package
    | some pos =>
      match R.move pos route with
      | none => none
      | some (pos, none) => some ⟨some pos, package.body⟩
      | some (pos, some filter) => R.work (Package.move process n) (some pos) (process filter package.body)

/-! ## Without positions -/

/-- The filters that a move has before it, from where some filters are to come. -/
abbrev Ahead (φ : Type) := List φ → String → List φ

/-- What the first filter makes of a body, when `answer` has what follows and a move. -/
def first (process : Process φ β) (answer : List φ → Call β → Option β) : List φ → β → Option β
  | [], b => some b
  | filter :: rest, b => (process filter b).run (answer rest)

/-- The body that a move comes back with. -/
def serve (ahead : Ahead φ) (process : Process φ β) : Nat → List φ → String → β → Option β
  | 0, _, _, _ => none
  | n + 1, filters, route, b =>
    first process (fun rest c => serve ahead process n rest c.route c.body) (ahead filters route) b

/-- The filter makes no move after that of its own package. -/
def OwnLast : Program (Call β) β β → Prop
  | .ret _ => True
  | .call c k => ∀ b, OwnLast (k b) ∧ (c.own = true → ∃ b', k b = .ret b')

/-- `At pos filters` says of a position which filters are to come. -/
structure Follows (ahead : Ahead φ) (At : R.Pos → List φ → Prop) : Prop where
  clone : ∀ pos filters, At pos filters → At (R.clone pos) filters
  null : ∀ pos filters route, At pos filters → ahead filters route = [] →
    ∃ pos', R.move pos route = some (pos', none)
  filter : ∀ pos filters route filter rest, At pos filters →
    ahead filters route = filter :: rest →
    ∃ pos', R.move pos route = some (pos', some filter) ∧ At pos' rest

variable {R} {ahead : Ahead φ} {At : R.Pos → List φ → Prop} {process : Process φ β}

/-- A filter at work is its program, when moves are answered in the same way. -/
theorem work_eq_run {move : R.Package β → String → Option (R.Package β)}
    {answer : Call β → Option β} {filters : List φ} (hclone : ∀ pos, At pos filters →
      At (R.clone pos) filters)
    (hmove : ∀ pos c, At pos filters → (move ⟨some pos, c.body⟩ c.route).map Package.body = answer c)
    {p : Program (Call β) β β} (hp : OwnLast p) {pos : R.Pos} (hpos : At pos filters) :
    (R.work move (some pos) p).map Package.body = p.run answer := by
  induction p with
  | ret b => rfl
  | call c k ih =>
    rw [work, Program.run]
    by_cases hown : c.own = true
    · rw [if_pos hown, ← hmove pos c hpos, Option.map_bind]
      cases move ⟨some pos, c.body⟩ c.route with
      | none => rfl
      | some package =>
        obtain ⟨b, hb⟩ := (hp package.body).2 hown
        simp only [Option.bind_some, Option.map_some, Function.comp_apply, hb]
        rfl
    · rw [if_neg hown, Option.bind_some, ← hmove (R.clone pos) c (hclone pos hpos), Option.map_bind]
      cases move ⟨some (R.clone pos), c.body⟩ c.route with
      | none => rfl
      | some package =>
        simp only [Option.bind_some, Option.map_some, Function.comp_apply]
        exact ih package.body (hp package.body).1

/-- However packages are copied and moved, a move comes back with what the filters ahead of it make
of its body. -/
theorem move_eq_serve (hfollows : R.Follows ahead At)
    (hprocess : ∀ filter b, OwnLast (process filter b)) (n : Nat) {pos : R.Pos} {filters : List φ}
    (hpos : At pos filters) (route : String) (b : β) :
    (Package.move R process n ⟨some pos, b⟩ route).map Package.body =
      serve ahead process n filters route b := by
  induction n generalizing pos filters route b with
  | zero => rfl
  | succ n ih =>
    rw [Package.move, serve]
    cases hahead : ahead filters route with
    | nil =>
      obtain ⟨pos', hmove⟩ := hfollows.null pos filters route hpos hahead
      dsimp only
      rw [hmove]
      rfl
    | cons filter rest =>
      obtain ⟨pos', hmove, hpos'⟩ := hfollows.filter pos filters route filter rest hpos hahead
      dsimp only
      rw [hmove]
      exact work_eq_run (fun pos => hfollows.clone pos rest)
        (fun pos c hat => ih hat c.route c.body) (hprocess filter b) hpos'

/-- A deeper nesting is allowed, too. -/
theorem serve_mono {m n : Nat} (hle : m ≤ n) {filters : List φ} {route : String} {b b' : β}
    (h : serve ahead process m filters route b = some b') :
    serve ahead process n filters route b = some b' := by
  induction m generalizing n filters route b b' with
  | zero => cases h
  | succ m ih =>
    obtain ⟨n, rfl⟩ := Nat.exists_eq_add_of_le' (Nat.lt_of_lt_of_le (Nat.succ_pos m) hle)
    rw [serve] at h ⊢
    cases hahead : ahead filters route with
    | nil =>
      rw [hahead] at h
      exact h
    | cons filter rest =>
      rw [hahead] at h
      exact Program.run_mono (fun c o ho => ih (Nat.le_of_succ_le_succ hle) ho) h

end Router
end Metaproxy
