import Metaproxy.Router.Compose
import Metaproxy.RouterFleXML.Pos

/-!
# RouterFleXML.Compose

What a configuration document means for a package: filters one after the other, groups in their
place, and routes where filters name them (`meaning`). Routes and positions keep to it
(`routes_compose`), and if no route leads back to itself, every package comes back (`moves_return`).
-/

namespace Metaproxy
namespace RouterFleXML

open Lib Xml

variable {β : Type}

def router (rep : Rep) : Router Filter where
  Pos := Pos
  createpos := createpos rep
  move pos route :=
    match pos.move rep route with
    | (pos, .filter f) => some (pos, some f)
    | (pos, .null) => some (pos, none)
    | (pos, .noSuchRoute) => some (pos, none)
    | (_, .outside) => none
  clone := Pos.clone

/-- The filters of a route; a route that is not there has none. -/
def Rep.route (rep : Rep) (id : String) : Route := (rep.routes.lookup id).getD []

/-- What a piece of a route does, read from the document. -/
def meaning (ids : Table String Filter) (process : Router.Process Filter β) : Node → Stage String β
  | .null => .pass
  | .node (.element tag) children next =>
    if tag.isMp "filters" then (meaning ids process children).seq (meaning ids process next)
    else if tag.isMp "filter" then
      match entry ids ⟨tag, children⟩ with
      | some f => (Router.stage process f).seq (meaning ids process next)
      | none => meaning ids process next
    else meaning ids process next
  | .node _ _ next => meaning ids process next

/-- The position is on a route that is there, and these filters are to come. -/
def Pos.Before (rep : Rep) (pos : Pos) (filters : List Filter) : Prop :=
  ∃ id list, pos.routeIt = some id ∧ rep.routes.lookup id = some list ∧
    pos.filterIt ≤ list.length ∧ filters = list.drop pos.filterIt

variable {rep : Rep} {process : Router.Process Filter β}

theorem next_before {pos : Pos} {filters : List Filter} (h : pos.Before rep filters) :
    (filters = [] → pos.next rep = (pos, .null)) ∧
      ∀ f rest, filters = f :: rest → ∃ pos', pos.next rep = (pos', .filter f) ∧
        pos'.Before rep rest := by
  obtain ⟨id, list, hroute, hlookup, hle, rfl⟩ := h
  rw [Pos.next, hroute, Option.bind_some, hlookup]
  dsimp only
  constructor
  · intro hnil
    rw [if_pos (Nat.le_antisymm hle (List.drop_eq_nil_iff.mp hnil))]
  · intro f rest hcons
    have hlt : pos.filterIt < list.length := by
      by_contra hge
      rw [List.drop_eq_nil_of_le (Nat.le_of_not_lt hge)] at hcons
      cases hcons
    rw [List.drop_eq_getElem_cons hlt] at hcons
    obtain ⟨rfl, rfl⟩ := List.cons.inj hcons
    rw [if_neg (Nat.ne_of_lt hlt), List.getElem?_eq_getElem hlt]
    exact ⟨_, rfl, id, list, rfl, hlookup, hlt, rfl⟩

theorem begin_before {id : String} {list : Route} (h : rep.routes.lookup id = some list) :
    Pos.Before rep ⟨some id, 0⟩ list :=
  ⟨id, list, rfl, h, Nat.zero_le _, rfl⟩

/-- What a move finds ahead of it, where there is something. -/
theorem move_before {pos : Pos} {filters : List Filter} (h : pos.Before rep filters)
    (route : String) :
    (∃ pos' : Pos, pos.move rep route = (pos', .noSuchRoute) ∧
      Router.aheadOf rep.route filters route = []) ∨
    ∃ pos' : Pos, pos.move rep route = pos'.next rep ∧
      pos'.Before rep (Router.aheadOf rep.route filters route) := by
  rw [Pos.move, Router.aheadOf]
  rcases Router.routeName_cases route with ⟨rfl, hnone⟩ | hsome
  · rw [hnone, if_neg (not_not.mpr rfl)]
    exact .inr ⟨pos, rfl, h⟩
  · have hne : route ≠ "" := by
      rintro rfl
      cases hsome
    rw [hsome, if_pos hne]
    dsimp only [Rep.route]
    cases hlookup : rep.routes.lookup route with
    | none => exact .inl ⟨_, rfl, rfl⟩
    | some list => exact .inr ⟨_, rfl, begin_before hlookup⟩

theorem follows (rep : Rep) :
    (router rep).Follows (Router.aheadOf rep.route) (Pos.Before rep) where
  clone _ _ h := h
  null pos filters route hpos hnil := by
    rcases move_before hpos route with ⟨pos', hmove, -⟩ | ⟨pos', hmove, hbefore⟩
    · exact ⟨pos', by simp only [router, hmove]⟩
    · exact ⟨pos', by simp only [router, hmove, (next_before hbefore).1 hnil]⟩
  filter pos filters route f rest hpos hcons := by
    rcases move_before hpos route with ⟨pos', -, hnil⟩ | ⟨pos', hmove, hbefore⟩
    · rw [hnil] at hcons
      cases hcons
    · obtain ⟨pos'', hnext, hbefore'⟩ := (next_before hbefore).2 f rest hcons
      exact ⟨pos'', by simp only [router, hmove, hnext], hbefore'⟩

/-! ## The document -/

theorem isUsed_of_entry {ids : Table String Filter} {e : Element} {f : Filter}
    (h : entry ids e = some f) : isUsed e = true := by
  rw [isUsed, Bool.or_eq_true, decide_eq_true_eq, decide_eq_true_eq]
  by_contra hno
  rw [not_or, not_not, not_not] at hno
  rw [entry, if_neg (not_not.mpr hno.1), if_neg (not_not.mpr hno.2)] at h
  cases h

theorem meaning_eq (ids : Table String Filter) (process : Router.Process Filter β) (node : Node) :
    meaning ids process node =
      Router.stages process ((routeFilters node).filterMap (entry ids)) := by
  induction node with
  | null => rfl
  | node data children next ihc ihn =>
    cases data with
    | element tag =>
      rw [meaning, routeFilters, Forest.flatten, isGroup]
      cases hgroup : tag.isMp "filters" with
      | true =>
        rw [if_pos rfl, if_pos rfl, ihc, ihn, List.filterMap_append, List.filter_append,
          List.filterMap_append, Router.stages, Router.stages, Router.stages, List.map_append,
          Stage.chain_append]
        rfl
      | false =>
        rw [if_neg Bool.false_ne_true, if_neg Bool.false_ne_true,
          List.filterMap_cons_some (show toElement (Data.element tag, children) = some ⟨tag, children⟩
            from rfl), List.filter_cons, ihn]
        cases hfilter : tag.isMp "filter" with
        | false =>
          rw [if_neg Bool.false_ne_true, Bool.false_and, if_neg Bool.false_ne_true]
          rfl
        | true =>
          rw [if_pos rfl, Bool.true_and]
          cases hentry : entry ids ⟨tag, children⟩ with
          | none =>
            dsimp only
            by_cases hused : isUsed ⟨tag, children⟩ = true
            · rw [if_pos hused, List.filterMap_cons_none hentry]
              rfl
            · rw [if_neg hused]
              rfl
          | some f =>
            rw [if_pos (isUsed_of_entry hentry), List.filterMap_cons_some hentry]
            rfl
    | text content => exact ihn
    | other => exact ihn

/-- A list of filters that stands for another one of entries. -/
theorem eq_filterMap_of_map {α : Type*} {route : Route} {entries : List α} {f : α → Option Filter}
    (h : route.map some = entries.map f) : route = entries.filterMap f := by
  have hid : (route.map some).filterMap id = (entries.map f).filterMap id := by rw [h]
  rw [List.filterMap_map, List.filterMap_map] at hid
  exact (List.filterMap_some.symm.trans hid)

/-- Routes are as in the document. -/
theorem route_meaning {root : Element} (haccepted : Accepted root rep)
    (process : Router.Process Filter β) :
    (∀ id, rep.routes.lookup id = none → Router.stages process (rep.route id) = .pass) ∧
    ∀ id list, rep.routes.lookup id = some list →
      Router.stages process (rep.route id) = Router.stages process list ∧
      ∃ e ∈ routeElements root, e.attr "id" = id ∧
        Router.stages process (rep.route id) = meaning rep.idFilterMap process e.children := by
  refine ⟨fun id hnone => ?_, fun id list hlookup => ?_⟩
  · rw [Rep.route, hnone]
    rfl
  · have hroute : rep.route id = list := by
      rw [Rep.route, hlookup]
      rfl
    obtain ⟨e, he, hid, horder⟩ := haccepted.order id list hlookup
    refine ⟨by rw [hroute], e, he, hid, ?_⟩
    rw [meaning_eq, hroute, eq_filterMap_of_map horder]

/-- Every configuration that is accepted, and filters that move their own package last: a package at
any position comes back with what the filters to come, one after the other, make of its body, where a
move to a route does what the document says of the route. -/
theorem routes_compose {env : Env} {doc : Option (Option Element)}
    (h : parseXmlConfigDom env doc = .ok rep)
    (hown : ∀ f b, Router.OwnLast (process f b)) :
    ∃ given root, doc = some given ∧ env.xmlInclude given = some (some root) ∧
      ∃ rows : String → Stage String β,
        (∀ id, rep.routes.lookup id = none → rows id = .pass) ∧
        (∀ id list, rep.routes.lookup id = some list → rows id = Router.stages process list ∧
          ∃ e ∈ routeElements root, e.attr "id" = id ∧
            rows id = meaning rep.idFilterMap process e.children) ∧
        (∃ list, createpos rep = some ⟨some rep.startRoute, 0⟩ ∧
          Pos.Before rep ⟨some rep.startRoute, 0⟩ list) ∧
        ∀ pos filters, pos.Before rep filters → ∀ b b',
          (∃ n package, Router.Package.move (router rep) process n ⟨some pos, b⟩ "" = some package ∧
            package.body = b') ↔
          ∃ n, (Router.stages process filters b).run (Stage.answer rows n) = some b' := by
  obtain ⟨given, root, hdoc, hinclude, haccepted⟩ := accepted_of_parse h
  obtain ⟨hpass, hrows⟩ := route_meaning haccepted process
  refine ⟨given, root, hdoc, hinclude, fun id => Router.stages process (rep.route id), hpass, hrows,
    ?_, fun pos filters hpos b b' => ?_⟩
  · obtain ⟨list, hlist⟩ := Option.isSome_iff_exists.mp haccepted.start
    refine ⟨list, ?_, begin_before hlist⟩
    rw [createpos, hlist]
    rfl
  · rw [← Router.served_iff]
    refine exists_congr fun n => ?_
    rw [← Router.move_eq_serve (follows rep) hown n hpos "" b, Option.map_eq_some_iff]

/-- A filter that notes what goes in and out, one that sends a copy to the first route it names, and
one that answers. -/
def sample (f : Filter) (b : List String) : Program (Router.Call (List String)) (List String)
    (List String) :=
  match f.type with
  | "log" => .call ⟨true, "", b ++ ["in"]⟩ fun o => .ret (o ++ ["out"])
  | "multi" => .call ⟨false, (childRoutes f.config).headD "", b⟩ .ret
  | _ => .ret (b ++ [f.type])

theorem sample_ownLast (f : Filter) (b : List String) : Router.OwnLast (sample f b) := by
  rw [sample]
  split
  · exact fun o => ⟨trivial, fun _ => ⟨_, rfl⟩⟩
  · exact fun o => ⟨trivial, fun _ => ⟨_, rfl⟩⟩
  · trivial

theorem routes_compose_sample :
    ∃ rows : String → Stage String (List String), ∃ list,
      Pos.Before twoRoutesRep ⟨some "start", 0⟩ list ∧
      ∃ n, (Router.stages sample list []).run (Stage.answer rows n) =
        some ["in", "bounce", "out"] := by
  have hparse : parseXmlConfigDom anyFilter (some (some twoRoutes)) = .ok twoRoutesRep := by rfl
  obtain ⟨given, root, -, -, rows, -, -, ⟨list, -, hbefore⟩, hmove⟩ :=
    routes_compose hparse sample_ownLast
  have hrun : ((Router.Package.move (router twoRoutesRep) sample 3 ⟨some ⟨some "start", 0⟩, []⟩
      "").map Router.Package.body) = some ["in", "bounce", "out"] := by rfl
  exact ⟨rows, list, hbefore, (hmove _ list hbefore [] _).mp
    ⟨3, Option.map_eq_some_iff.mp hrun⟩⟩

end RouterFleXML
end Metaproxy
