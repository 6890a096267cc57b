import Metaproxy.Lib.Run
import Metaproxy.RouterFleXML.Accepted

/-!
# RouterFleXML.Pos

The position of a package (`RouterFleXML::Pos`). With a configuration that is accepted, and filters
that move on or to a route that an element below a filter names, no position leaves the routes there
are, and what it has passed of its route is the first filters of the route's element, in document
order (`routes_safely`).

A run has all positions: they are made, copied and moved in any order. A filter may name the routes
of any filter here, not only its own.
-/

namespace Metaproxy
namespace RouterFleXML

open Lib Xml

structure Pos where
  /-- `m_route_it`, unless it is `end()`. -/
  routeIt : Option String
  /-- How many filters of the route `m_filter_it` has passed. -/
  filterIt : Nat
deriving DecidableEq, Repr

inductive Moved where
  | filter (f : Filter)
  | null
  /-- The fatal message. -/
  | noSuchRoute
  /-- An iterator at the end, or past it, is followed. -/
  | outside
deriving DecidableEq, Repr

/-- The part of `move` that has its route. -/
def Pos.next (rep : Rep) (p : Pos) : Pos × Moved :=
  match p.routeIt.bind fun id => rep.routes.lookup id with
  | none => (p, .outside)
  | some list =>
    if p.filterIt = list.length then (p, .null)
    else
      match list[p.filterIt]? with
      | none => (p, .outside)
      | some f => ({ p with filterIt := p.filterIt + 1 }, .filter f)

def Pos.move (rep : Rep) (p : Pos) (route : String) : Pos × Moved :=
  if route ≠ "" then
    match rep.routes.lookup route with
    | none => ({ p with routeIt := none }, .noSuchRoute)
    | some _ => Pos.next rep ⟨some route, 0⟩
  else p.next rep

def createpos (rep : Rep) : Option Pos :=
  (rep.routes.lookup rep.startRoute).map fun _ => ⟨some rep.startRoute, 0⟩

def Pos.clone (p : Pos) : Pos := ⟨p.routeIt, p.filterIt⟩

/-! ## Runs -/

/-- A position, and the filters it has passed since it came to its route. -/
structure Walker where
  pos : Pos
  visited : List Filter
deriving DecidableEq, Repr

structure St where
  walkers : List Walker
  /-- What `move` has returned, the latest first. -/
  results : List Moved
deriving DecidableEq, Repr

inductive Label where
  | createpos
  | clone (i : Nat)
  | move (i : Nat) (route : String)

def Moved.visited : Moved → List Filter
  | .filter f => [f]
  | _ => []

def Walker.move (rep : Rep) (w : Walker) (route : String) : Walker where
  pos := (w.pos.move rep route).1
  visited := (if route ≠ "" then [] else w.visited) ++ (w.pos.move rep route).2.visited

def step (rep : Rep) (s : St) : Label → Option St
  | .createpos => (createpos rep).map fun pos => { s with walkers := s.walkers ++ [⟨pos, []⟩] }
  | .clone i => (s.walkers[i]?).map fun w =>
    { s with walkers := s.walkers ++ [⟨w.pos.clone, w.visited⟩] }
  | .move i route => (s.walkers[i]?).map fun w =>
    { walkers := s.walkers.set i (w.move rep route)
      results := (w.pos.move rep route).2 :: s.results }

def init (s : St) : Prop := s.walkers = [] ∧ s.results = []

/-- The routes that elements one level below the filters of the routes name. -/
def Rep.named (rep : Rep) : List String :=
  rep.routes.entries.flatMap fun r => r.2.flatMap fun f => childRoutes f.config

/-- A filter moves on, or to a route that is named. -/
def Allowed (rep : Rep) (_ : St) : Label → Prop
  | .move _ route => route = "" ∨ route ∈ rep.named
  | _ => True

variable {rep : Rep} {root : Element} {s s' : St} {w : Walker}

theorem named_iff {route : String} :
    route ∈ rep.named ↔
      ∃ id list, rep.routes.lookup id = some list ∧ ∃ f ∈ list, route ∈ childRoutes f.config := by
  simp only [Rep.named, List.mem_flatMap]
  constructor
  · rintro ⟨⟨id, list⟩, hmem, f, hf, hroute⟩
    exact ⟨id, list, AList.mem_lookup_iff.mpr hmem, f, hf, hroute⟩
  · rintro ⟨id, list, hlookup, f, hf, hroute⟩
    exact ⟨⟨id, list⟩, AList.mem_lookup_iff.mp hlookup, f, hf, hroute⟩

theorem childRoutes_iff {e : Element} {route : String} :
    route ∈ childRoutes e ↔ ∃ c ∈ elements e.children, ∃ attr ∈ c.tag.properties,
      attr.name = "route" ∧ attr.value = route := by
  simp only [childRoutes, List.mem_flatMap, List.mem_map, List.mem_filter, decide_eq_true_eq,
    and_assoc]

/-- A filter that reads the route it moves to from an element below it does what is allowed. -/
theorem getRoute_childRoutes {e c : Element} (hc : c ∈ elements e.children) {route : String}
    (h : getRoute c = .ok route ∨ ∃ auth, getRouteAuth c = .ok (route, auth)) :
    route = "" ∨ route ∈ childRoutes e := by
  have hread : ∃ names values, parseAttr names c.tag.name c.tag.properties (fun _ => "") =
      .ok values ∧ values "route" = route := by
    rcases h with h | ⟨auth, h⟩
    · obtain ⟨values, hparse, hroute⟩ := map_eq_ok h
      exact ⟨_, values, hparse, hroute⟩
    · obtain ⟨values, hparse, hroute⟩ := map_eq_ok h
      exact ⟨_, values, hparse, congrArg Prod.fst hroute⟩
  obtain ⟨names, values, hparse, hroute⟩ := hread
  rcases parseAttr_mem hparse with hnone | ⟨attr, hattr, hname, hvalue⟩
  · exact .inl (hroute.symm.trans hnone)
  · exact .inr (childRoutes_iff.mpr ⟨c, hc, attr, hattr, hname, hvalue.trans hroute⟩)

/-- A position is on a route that is there, and what it has passed are the route's first filters. -/
def Walker.Inside (rep : Rep) (w : Walker) : Prop :=
  ∃ id list, w.pos.routeIt = some id ∧ rep.routes.lookup id = some list ∧
    w.pos.filterIt ≤ list.length ∧ w.visited = list.take w.pos.filterIt

/-- Neither a missing route nor an iterator without an element. -/
def Moved.IsInside : Moved → Prop
  | .filter _ => True
  | .null => True
  | .noSuchRoute => False
  | .outside => False

/-- On a route that is there, the next filter of the route is passed, until there are no more. -/
theorem next_inside (h : w.Inside rep) :
    (w.pos.next rep).2.IsInside ∧
      Walker.Inside rep ⟨(w.pos.next rep).1, w.visited ++ (w.pos.next rep).2.visited⟩ := by
  obtain ⟨id, list, hroute, hlookup, hle, hvisited⟩ := h
  rw [Pos.next, hroute, Option.bind_some, hlookup]
  dsimp only
  by_cases hend : w.pos.filterIt = list.length
  · rw [if_pos hend]
    exact ⟨trivial, id, list, hroute, hlookup, hle, (List.append_nil _).trans hvisited⟩
  · rw [if_neg hend]
    have hlt : w.pos.filterIt < list.length := Nat.lt_of_le_of_ne hle hend
    rw [List.getElem?_eq_getElem hlt]
    refine ⟨trivial, id, list, rfl, hlookup, hlt, ?_⟩
    rw [hvisited]
    exact List.take_append_getElem hlt

theorem move_inside (hnamed : ∀ route ∈ rep.named, (rep.routes.lookup route).isSome = true)
    (h : w.Inside rep) {route : String} (hok : route = "" ∨ route ∈ rep.named) :
    (w.pos.move rep route).2.IsInside ∧ Walker.Inside rep (w.move rep route) := by
  rw [Walker.move, Pos.move]
  by_cases hempty : route = ""
  · rw [if_neg (not_not.mpr hempty), if_neg (not_not.mpr hempty)]
    exact next_inside h
  · rw [if_pos hempty, if_pos hempty]
    obtain ⟨list, hlist⟩ := Option.isSome_iff_exists.mp (hnamed route (hok.resolve_left hempty))
    have hbegin : Walker.Inside rep ⟨⟨some route, 0⟩, []⟩ :=
      ⟨route, list, rfl, hlist, Nat.zero_le _, rfl⟩
    rw [hlist]
    exact next_inside hbegin

/-- All positions, and all that moves have returned. -/
structure Safe (rep : Rep) (s : St) : Prop where
  walkers : ∀ w ∈ s.walkers, w.Inside rep
  results : ∀ moved ∈ s.results, moved.IsInside

theorem safe_step (hnamed : ∀ route ∈ rep.named, (rep.routes.lookup route).isSome = true)
    {a : Label} (h : Safe rep s) (hok : Allowed rep s a) (hs : step rep s a = some s') :
    Safe rep s' := by
  cases a with
  | createpos =>
    obtain ⟨pos, hpos, rfl⟩ := Option.map_eq_some_iff.mp hs
    obtain ⟨list, hlist, rfl⟩ := Option.map_eq_some_iff.mp hpos
    refine ⟨fun w hw => ?_, h.results⟩
    rcases List.mem_append.mp hw with hw | hw
    · exact h.walkers w hw
    · rw [List.mem_singleton.mp hw]
      exact ⟨rep.startRoute, list, rfl, hlist, Nat.zero_le _, rfl⟩
  | clone i =>
    obtain ⟨w, hw, rfl⟩ := Option.map_eq_some_iff.mp hs
    refine ⟨fun w' hw' => ?_, h.results⟩
    rcases List.mem_append.mp hw' with hw' | hw'
    · exact h.walkers w' hw'
    · rw [List.mem_singleton.mp hw']
      exact h.walkers w (List.mem_of_getElem? hw)
  | move i route =>
    obtain ⟨w, hw, rfl⟩ := Option.map_eq_some_iff.mp hs
    obtain ⟨hmoved, hinside⟩ := move_inside hnamed (h.walkers w (List.mem_of_getElem? hw)) hok
    refine ⟨fun w' hw' => ?_, List.forall_mem_cons.mpr ⟨hmoved, h.results⟩⟩
    rcases List.mem_or_eq_of_mem_set hw' with hw' | rfl
    · exact h.walkers w' hw'
    · exact hinside

theorem safe_of_reach (hnamed : ∀ route ∈ rep.named, (rep.routes.lookup route).isSome = true)
    (h : Reach (step rep) init (Allowed rep) s) : Safe rep s := by
  refine h.invariant (fun s hs => ?_) fun s a s' hi hok hs => safe_step hnamed hi hok hs
  refine ⟨?_, ?_⟩
  · rw [hs.1]
    exact List.forall_mem_nil _
  · rw [hs.2]
    exact List.forall_mem_nil _

/-! ## Accepted configurations -/

/-- The filters of a route are in document order. -/
theorem routeFilters_sublist (node : Node) :
    ((routeFilters node).map fun e => (Data.element e.tag, e.children)).Sublist node.preorder := by
  have hflat := Forest.flatten_sublist isGroup node
  have helements : ∀ l : List (Data × Node),
      ((l.filterMap toElement).map fun e => (Data.element e.tag, e.children)).Sublist l := by
    intro l
    induction l with
    | nil => exact List.Sublist.refl _
    | cons x l ih =>
      obtain ⟨data, children⟩ := x
      cases data with
      | element tag => exact ih.cons_cons _
      | text content => exact ih.cons _
      | other => exact ih.cons _
  exact ((List.filter_sublist.map _).trans (helements _)).trans hflat

theorem named_there (h : Accepted root rep) :
    ∀ route ∈ rep.named, (rep.routes.lookup route).isSome = true := by
  intro route hroute
  obtain ⟨id, list, hlookup, f, hf, hchild⟩ := named_iff.mp hroute
  exact h.known id list hlookup f hf route hchild

/-- Every configuration that is accepted: there is a start, and in every run in which filters move
on or to a route named below a filter, `move` finds its route and stays in its list. A position is
on the route of an element of the document, and has passed the first of those filters of it that
have a `refid` or a `type`, in document order and with groups flattened. -/
theorem routes_safely {env : Env} {doc : Option (Option Element)} {rep : Rep}
    (h : parseXmlConfigDom env doc = .ok rep) :
    ∃ given root, doc = some given ∧ env.xmlInclude given = some (some root) ∧
      (createpos rep).isSome = true ∧
      (∀ e ∈ routeElements root, (rep.routes.lookup (e.attr "id")).isSome = true) ∧
      ∀ s, Reach (step rep) init (Allowed rep) s →
        (∀ moved ∈ s.results, moved.IsInside) ∧
        ∀ w ∈ s.walkers, ∃ e ∈ routeElements root, ∃ list,
          w.pos.routeIt = some (e.attr "id") ∧ rep.routes.lookup (e.attr "id") = some list ∧
          w.pos.filterIt ≤ list.length ∧ w.visited = list.take w.pos.filterIt ∧
          list.map some = (routeFilters e.children).map (entry rep.idFilterMap) ∧
          ((routeFilters e.children).map fun x => (Data.element x.tag, x.children)).Sublist
            e.children.preorder := by
  obtain ⟨given, root, hdoc, hinclude, haccepted⟩ := accepted_of_parse h
  refine ⟨given, root, hdoc, hinclude, ?_, haccepted.all, fun s hs => ?_⟩
  · rw [createpos, Option.isSome_map]
    exact haccepted.start
  · have hsafe := safe_of_reach (named_there haccepted) hs
    refine ⟨hsafe.results, fun w hw => ?_⟩
    obtain ⟨id, list, hroute, hlookup, hle, hvisited⟩ := hsafe.walkers w hw
    obtain ⟨e, he, rfl, horder⟩ := haccepted.order id list hlookup
    exact ⟨e, he, list, hroute, hlookup, hle, hvisited, horder, routeFilters_sublist _⟩

/-! ### A jump to another route and back out of a group -/

/-- An element of the configuration. -/
def mp (name : String) (properties : List (String × String)) (children next : Node) : Node :=
  .node (.element ⟨some metaproxyNs, name,
    properties.map fun p => ⟨p.1, some p.2⟩⟩) children next

/-- The filter `b` names the route `other`; `a` is defined at the top. -/
def twoRoutes : Element where
  tag := ⟨some metaproxyNs, "metaproxy", []⟩
  children :=
    mp "start" [("route", "start")] .null <|
    mp "filters" [] (mp "filter" [("id", "a"), ("type", "log")] .null .null) <|
    mp "routes" []
      (mp "route" [("id", "start")]
        (mp "filters" [] (mp "filter" [("refid", "a")] .null <| .node (.text " ") .null .null) <|
          mp "filter" [("type", "multi")] (mp "target" [("route", "other")] .null .null) .null) <|
        mp "route" [("id", "other")] (mp "filter" [("type", "bounce")] .null .null) .null)
      .null

def anyFilter : Env where
  xmlInclude := some
  make _ _ _ := .ok ()

def twoRoutesRep : Rep :=
  (parseXmlConfigDom anyFilter (some (some twoRoutes))).toOption.getD ⟨∅, ∅, "", ""⟩

instance (rep : Rep) (s : St) : ∀ a, Decidable (Allowed rep s a)
  | .move _ route => inferInstanceAs (Decidable (route = "" ∨ route ∈ rep.named))
  | .createpos => isTrue trivial
  | .clone _ => isTrue trivial

/-- The copy goes on at the end of its route while the other one is in `other`. -/
def jump : List Label :=
  [.createpos, .move 0 "", .move 0 "", .clone 0, .move 0 "other", .move 1 ""]

theorem routes_safely_jump :
    ∃ s : St, s.walkers.map (fun w => w.visited.map (·.type)) = [["bounce"], ["log", "multi"]] ∧
      ∀ moved ∈ s.results, moved.IsInside := by
  have hparse : parseXmlConfigDom anyFilter (some (some twoRoutes)) = .ok twoRoutesRep := by rfl
  have hinit : init ⟨[], []⟩ := ⟨rfl, rfl⟩
  have hok : RunOk (step twoRoutesRep) (Allowed twoRoutesRep) ⟨[], []⟩ jump := by decide
  have hrun : (run (step twoRoutesRep) ⟨[], []⟩ jump).any (fun s =>
      s.walkers.map (fun w => w.visited.map (·.type)) = [["bounce"], ["log", "multi"]]) := by
    decide
  obtain ⟨s, hr, hs⟩ := Reach.exists_of_run hinit hok hrun
  obtain ⟨given, root, -, -, -, -, hsafe⟩ := routes_safely hparse
  exact ⟨s, of_decide_eq_true hs, (hsafe s hr).1⟩

end RouterFleXML
end Metaproxy
