import Mathlib.Data.List.TakeWhile
import Metaproxy.Lib.Outcome
import Metaproxy.RouterFleXML.Config

/-!
# RouterFleXML.Accepted

What holds of a configuration that is accepted (`accepted_of_parse`): the start route is there, the
filters of a route are those of its element in document order, and each route that an element below
a filter names is there, too.

`parse_xml_filters1` and `check_routes_in_filters` are separate walks. Both are folds over the same
list, the nodes with the contents of `filters` in place of them (`parseXmlFilters1_eq`,
`checkRoutesInFilters_eq`), so the second meets all that the first has put in a route. A filter that
is there by its `refid` has the element that defines it, which is below the `filters` at the top and
is met there.
-/

namespace Metaproxy
namespace RouterFleXML

open Lib Xml

variable {env : Env} {dlPath : String} {ids : Table String Filter} {routes : Table String Route}

/-! ## Attributes -/

theorem attrLoop_ok {allowed : List String} {text : String} {attrs : List Attr}
    {values values' : String → String} (h : attrLoop allowed text attrs values = .ok values')
    {name : String} (hname : name ∈ allowed) :
    values' name = lastValue (fun attr => some attr.name) Attr.value name attrs (values name) := by
  induction attrs generalizing values with
  | nil =>
    cases h
    rfl
  | cons attr rest ih =>
    rw [attrLoop] at h
    rw [lastValue_cons]
    split at h
    · rw [ih h]
      by_cases heq : attr.name = name
      · rw [if_pos (congrArg some heq), ← heq, Function.update_self]
      · rw [if_neg (heq ∘ Option.some.inj), Function.update_of_ne (Ne.symm heq)]
    · rename_i hnot
      have hne : attr.name ≠ name := fun heq => hnot (heq ▸ hname)
      rw [if_neg (hne ∘ Option.some.inj)]
      split at h
      · exact ih h
      · cases h

/-- The routes that the elements one level below name. -/
def childRoutes (e : Element) : List String :=
  (elements e.children).flatMap fun c => (c.tag.properties.filter (·.name = "route")).map Attr.value

/-! ## The filters of a route -/

/-- `filters` groups others. -/
def isGroup : Data → Bool
  | .element tag => tag.isMp "filters"
  | _ => false

/-- It has a `refid` or a `type`. -/
def isUsed (e : Element) : Bool := e.attr "refid" ≠ "" || e.attr "type" ≠ ""

/-- The filters of a route in document order. -/
def routeFilters (node : Node) : List Element :=
  ((node.flatten isGroup).filterMap toElement).filter fun e => e.tag.isMp "filter" && isUsed e

/-- The filter that an element stands for. -/
def entry (ids : Table String Filter) (e : Element) : Option Filter :=
  if e.attr "refid" ≠ "" then ids.lookup (e.attr "refid")
  else if e.attr "type" ≠ "" then some ⟨e.attr "type", e⟩
  else none

theorem parseRouteFilter_ok {route route' : Route} {e : Element}
    (h : parseRouteFilter env dlPath ids route e = .ok route') :
    e.tag.isMp "filter" = true ∧ route' = route ++ (entry ids e).toList ∧
      isUsed e = (entry ids e).isSome := by
  obtain ⟨e', hcheck, h⟩ := bind_eq_ok h
  obtain ⟨values, hattrs, h⟩ := bind_eq_ok h
  have hrefid : values "refid" = e.attr "refid" := attrLoop_ok hattrs (by decide)
  have htype : values "type" = e.attr "type" := attrLoop_ok hattrs (by decide)
  rw [hrefid, htype] at h
  refine ⟨?_, ?_⟩
  · obtain ⟨heq, hmp⟩ := checkElementMp_ok hcheck
    cases heq
    exact hmp
  · rw [entry, isUsed]
    split at h
    · rename_i hne
      split at h
      · cases h
      · rename_i f hf
        cases h
        rw [if_pos hne, hf]
        exact ⟨rfl, by simp [hne]⟩
    · rename_i hempty
      rw [if_neg hempty]
      split at h
      · rename_i hne
        obtain ⟨-, -, h⟩ := bind_eq_ok h
        cases h
        rw [if_pos hne]
        exact ⟨rfl, by simp [hne]⟩
      · rename_i hnone
        cases h
        rw [if_neg hnone]
        exact ⟨(List.append_nil _).symm, by simp_all⟩

/-- What `parse_xml_filters1` does with a node that is no group. -/
def visitFilter (env : Env) (dlPath : String) (ids : Table String Filter) (route : Route)
    (x : Data × Node) : Except ConfigError Route :=
  match toElement x with
  | some e => parseRouteFilter env dlPath ids route e
  | none => .ok route

theorem parseXmlFilters1_eq (node : Node) (route : Route) :
    parseXmlFilters1 env dlPath ids node route =
      (node.flatten isGroup).foldlM (visitFilter env dlPath ids) route := by
  refine Forest.walk_eq_foldlM (fun s => rfl) (fun data children next s hg => ?_)
    (fun data children next s hg => ?_) node route
  · cases data with
    | element tag =>
      have hmp : tag.isMp "filters" = true := hg
      rw [parseXmlFilters1, if_pos hmp]
    | text content => cases hg
    | other => cases hg
  · cases data with
    | element tag =>
      have hmp : ¬ tag.isMp "filters" = true := Bool.eq_false_iff.mp hg
      rw [parseXmlFilters1, if_neg hmp]
      rfl
    | text content => rfl
    | other => rfl

theorem map_some_filterMap {α β : Type*} {p : α → Bool} {f : α → Option β} {l : List α}
    (h : ∀ x ∈ l, p x = (f x).isSome) : (l.filterMap f).map some = (l.filter p).map f := by
  induction l with
  | nil => rfl
  | cons x l ih =>
    obtain ⟨hx, hl⟩ := List.forall_mem_cons.mp h
    cases hf : f x with
    | none =>
      rw [List.filterMap_cons_none hf, List.filter_cons_of_neg (by simp [hx, hf]), ih hl]
    | some y =>
      rw [List.filterMap_cons_some hf, List.filter_cons_of_pos (by rw [hx, hf]; rfl), List.map_cons,
        List.map_cons, hf, ih hl]

/-- The filters of a route, one for each element that has a `refid` or a `type`, in their order. -/
theorem route_of_parse {node : Node} {route : Route}
    (h : parseXmlFilters1 env dlPath ids node [] = .ok route) :
    route.map some = (routeFilters node).map (entry ids) := by
  rw [parseXmlFilters1_eq] at h
  have hroute : route =
      [] ++ (node.flatten isGroup).filterMap fun x => (toElement x).bind (entry ids) := by
    refine foldlM_collects (fun s x s' hvisit => ?_) h
    rw [visitFilter] at hvisit
    cases hx : toElement x with
    | none =>
      rw [hx] at hvisit
      cases hvisit
      exact (List.append_nil _).symm
    | some e =>
      rw [hx] at hvisit
      exact (parseRouteFilter_ok hvisit).2.1
  have hused : ∀ e ∈ (node.flatten isGroup).filterMap toElement,
      (e.tag.isMp "filter" && isUsed e) = (entry ids e).isSome := by
    intro e he
    obtain ⟨x, hx, hxe⟩ := List.mem_filterMap.mp he
    obtain ⟨s1, s2, hvisit⟩ := forall_of_foldlM h x hx
    rw [visitFilter, hxe] at hvisit
    obtain ⟨hmp, -, hused⟩ := parseRouteFilter_ok hvisit
    rw [hmp, hused, Bool.true_and]
  rw [hroute, List.nil_append, ← List.filterMap_filterMap]
  exact map_some_filterMap hused

/-! ## Routes that filters name -/

theorem checkRouteAttrs_ok {attrs : List Attr} (h : checkRouteAttrs routes attrs = .ok ()) :
    ∀ attr ∈ attrs, attr.name = "route" → (routes.lookup attr.value).isSome = true := by
  induction attrs with
  | nil => exact List.forall_mem_nil _
  | cons attr rest ih =>
    rw [checkRouteAttrs] at h
    split at h
    · cases h
    · rename_i hnot
      refine List.forall_mem_cons.mpr ⟨fun hname => ?_, ih h⟩
      by_contra hmissing
      exact hnot ⟨hname, by simpa using hmissing⟩

theorem checkFilter_ok {nodes : List Element} (h : checkFilter routes nodes = .ok ()) :
    ∀ e ∈ nodes, checkRouteAttrs routes e.tag.properties = .ok () := by
  induction nodes with
  | nil => exact List.forall_mem_nil _
  | cons e rest ih =>
    obtain ⟨⟨⟩, hfirst, hrest⟩ := bind_eq_ok h
    exact List.forall_mem_cons.mpr ⟨hfirst, ih hrest⟩

/-- What `check_routes_in_filters` does with a node that is no group. -/
def visitCheck (routes : Table String Route) (x : Data × Node) : Except ConfigError Unit :=
  match toElement x with
  | some e => if e.tag.isMp "filter" then checkFilter routes (elements e.children) else .ok ()
  | none => .ok ()

theorem checkRoutesInFilters_eq (node : Node) :
    checkRoutesInFilters routes node =
      (node.flatten isGroup).foldlM (fun _ => visitCheck routes) () := by
  let walk : Node → Unit → Except ConfigError Unit := fun node _ => checkRoutesInFilters routes node
  have hwalk : ∀ u, walk node u = (node.flatten isGroup).foldlM (fun _ => visitCheck routes) u := by
    refine Forest.walk_eq_foldlM (fun s => rfl) (fun data children next s hg => ?_)
      (fun data children next s hg => ?_) node
    · cases data with
      | element tag =>
        have hmp : tag.isMp "filters" = true := hg
        simp only [walk]
        rw [checkRoutesInFilters, if_pos hmp]
      | text content => cases hg
      | other => cases hg
    · cases data with
      | element tag =>
        have hmp : ¬ tag.isMp "filters" = true := Bool.eq_false_iff.mp hg
        simp only [walk]
        rw [checkRoutesInFilters, if_neg hmp, visitCheck, toElement]
        dsimp only
        split <;> rfl
      | text content => rfl
      | other => rfl
  exact hwalk ()

/-- The routes below a filter that the check has met are there. -/
theorem childRoutes_checked {node : Node} (h : checkRoutesInFilters routes node = .ok ())
    {e : Element} (he : (.element e.tag, e.children) ∈ node.flatten isGroup)
    (hmp : e.tag.isMp "filter" = true) :
    ∀ r ∈ childRoutes e, (routes.lookup r).isSome = true := by
  rw [checkRoutesInFilters_eq] at h
  obtain ⟨-, ⟨⟩, hvisit⟩ := forall_of_foldlM h _ he
  rw [visitCheck, toElement] at hvisit
  simp only [hmp, if_true] at hvisit
  intro r hr
  obtain ⟨c, hc, hr⟩ := List.mem_flatMap.mp hr
  obtain ⟨attr, hattr, rfl⟩ := List.mem_map.mp hr
  obtain ⟨hattr, hname⟩ := List.mem_filter.mp hattr
  exact checkRouteAttrs_ok (checkFilter_ok hvisit c hc) attr hattr (of_decide_eq_true hname)

theorem checkRoutes_ok {nodes : List Element} (h : checkRoutes routes nodes = .ok ()) :
    ∀ e ∈ nodes, e.tag.isMp "route" = true → checkRoutesInFilters routes e.children = .ok () := by
  induction nodes with
  | nil => exact List.forall_mem_nil _
  | cons e rest ih =>
    rw [checkRoutes] at h
    split at h
    · obtain ⟨⟨⟩, hfirst, hrest⟩ := bind_eq_ok h
      exact List.forall_mem_cons.mpr ⟨fun _ => hfirst, ih hrest⟩
    · rename_i hnot
      exact List.forall_mem_cons.mpr ⟨fun hmp => absurd hmp hnot, ih h⟩

theorem checkRoot_ok {nodes : List Element} (h : checkRoot routes nodes = .ok ()) :
    ∀ e ∈ nodes, (e.tag.isMp "filters" = true → checkRoutesInFilters routes e.children = .ok ()) ∧
      (e.tag.isMp "routes" = true → checkRoutes routes (elements e.children) = .ok ()) := by
  induction nodes with
  | nil => exact List.forall_mem_nil _
  | cons e rest ih =>
    rw [checkRoot] at h
    split at h
    · rename_i hfilters
      obtain ⟨⟨⟩, hfirst, hrest⟩ := bind_eq_ok h
      refine List.forall_mem_cons.mpr ⟨⟨fun _ => hfirst, fun hroutes => ?_⟩, ih hrest⟩
      rw [isMp_ne hfilters (by decide)] at hroutes
      cases hroutes
    · rename_i hfilters
      split at h
      · obtain ⟨⟨⟩, hfirst, hrest⟩ := bind_eq_ok h
        exact List.forall_mem_cons.mpr
          ⟨⟨fun hmp => absurd hmp hfilters, fun _ => hfirst⟩, ih hrest⟩
      · rename_i hroutes
        exact List.forall_mem_cons.mpr
          ⟨⟨fun hmp => absurd hmp hfilters, fun hmp => absurd hmp hroutes⟩, ih h⟩

/-! ## The tables -/

/-- The filters at the top are made with elements of the list, all of which are filters. -/
theorem parseXmlFilters_ok {nodes : List Element} {ids' : Table String Filter}
    (h : parseXmlFilters env dlPath nodes ids = .ok ids') :
    (∀ e ∈ nodes, e.tag.isMp "filter" = true) ∧
      ∀ id f, ids'.lookup id = some f → ids.lookup id = some f ∨ f.config ∈ nodes := by
  induction nodes generalizing ids with
  | nil =>
    cases h
    exact ⟨List.forall_mem_nil _, fun id f hf => .inl hf⟩
  | cons e rest ih =>
    obtain ⟨e', hcheck, h⟩ := bind_eq_ok h
    obtain ⟨values, -, h⟩ := bind_eq_ok h
    obtain ⟨-, -, h⟩ := bind_eq_ok h
    split at h
    · cases h
    · obtain ⟨hrest, hlookup⟩ := ih h
      obtain ⟨heq, hmp⟩ := checkElementMp_ok hcheck
      cases heq
      refine ⟨List.forall_mem_cons.mpr ⟨hmp, hrest⟩, fun id f hf => ?_⟩
      rcases hlookup id f hf with hf | hf
      · rcases Table.lookup_insert_iff.mp hf with ⟨-, rfl⟩ | ⟨-, hf⟩
        · exact .inr List.mem_cons_self
        · exact .inl hf
      · exact .inr (List.mem_cons_of_mem _ hf)

/-- The leading elements of the list that are routes. -/
def leadingRoutes (nodes : List Element) : List Element := nodes.takeWhile (·.tag.isMp "route")

theorem routeAttrs_id {e : Element} {values : String → String} (h : routeAttrs e = .ok values) :
    values "id" = e.attr "id" := attrLoop_ok h (by decide)

/-- Each of them has its route, and there are no other routes. -/
theorem parseXmlRoutesLoop_ok {nodes : List Element} {routes' : Table String Route}
    (h : parseXmlRoutesLoop env dlPath ids nodes routes = .ok routes') :
    (∀ id, (routes.lookup id).isSome = true → (routes'.lookup id).isSome = true) ∧
    (∀ e ∈ leadingRoutes nodes, (routes'.lookup (e.attr "id")).isSome = true) ∧
    ∀ id route, routes'.lookup id = some route → routes.lookup id = some route ∨
      ∃ e ∈ leadingRoutes nodes, e.attr "id" = id ∧
        parseXmlFilters1 env dlPath ids e.children [] = .ok route := by
  induction nodes generalizing routes with
  | nil =>
    cases h
    exact ⟨fun _ => id, List.forall_mem_nil _, fun id route hr => .inl hr⟩
  | cons e rest ih =>
    rw [parseXmlRoutesLoop] at h
    split at h
    · rename_i hmp
      have hleading : leadingRoutes (e :: rest) = e :: leadingRoutes rest :=
        List.takeWhile_cons_of_pos hmp
      obtain ⟨values, hattrs, h⟩ := bind_eq_ok h
      obtain ⟨route, hparse, h⟩ := bind_eq_ok h
      rw [routeAttrs_id hattrs] at h
      split at h
      · cases h
      · obtain ⟨hkeep, hall, hlookup⟩ := ih h
        have hself : (routes'.lookup (e.attr "id")).isSome = true :=
          hkeep _ (congrArg Option.isSome (AList.lookup_insert _))
        rw [hleading]
        refine ⟨fun id hid => ?_, List.forall_mem_cons.mpr ⟨hself, hall⟩, fun id route' hr => ?_⟩
        · by_cases hne : id = e.attr "id"
          · rw [hne]
            exact hself
          · refine hkeep id ?_
            rw [AList.lookup_insert_ne hne]
            exact hid
        · rcases hlookup id route' hr with hr | ⟨e', he', hid, hparse'⟩
          · rcases Table.lookup_insert_iff.mp hr with ⟨rfl, rfl⟩ | ⟨-, hr⟩
            · exact .inr ⟨e, List.mem_cons_self, rfl, hparse⟩
            · exact .inl hr
          · exact .inr ⟨e', List.mem_cons_of_mem _ he', hid, hparse'⟩
    · rename_i hmp
      have hleading : leadingRoutes (e :: rest) = [] := List.takeWhile_cons_of_neg hmp
      cases h
      rw [hleading]
      exact ⟨fun _ => id, List.forall_mem_nil _, fun id route hr => .inl hr⟩

/-! ## The document -/

/-- The elements of the routes. -/
def routeElements (root : Element) : List Element :=
  ((elements root.children).filter (·.tag.isMp "routes")).flatMap fun node =>
    leadingRoutes (elements node.children)

/-- What an accepted configuration has. -/
structure Accepted (root : Element) (rep : Rep) : Prop where
  start : (rep.routes.lookup rep.startRoute).isSome = true
  known : ∀ id route, rep.routes.lookup id = some route → ∀ f ∈ route,
    ∀ r ∈ childRoutes f.config, (rep.routes.lookup r).isSome = true
  /-- Each element of a route is one. -/
  all : ∀ e ∈ routeElements root, (rep.routes.lookup (e.attr "id")).isSome = true
  order : ∀ id route, rep.routes.lookup id = some route → ∃ e ∈ routeElements root,
    e.attr "id" = id ∧ route.map some = (routeFilters e.children).map (entry rep.idFilterMap)

theorem parseDlPath_suffix (nodes : List Element) : (parseDlPath nodes).2 <:+ nodes := by
  cases nodes with
  | nil => exact List.suffix_refl _
  | cons e rest =>
    rw [parseDlPath]
    split
    · exact List.suffix_cons _ _
    · exact List.suffix_refl _

theorem mem_parseDlPath {nodes : List Element} {e : Element} (he : e ∈ nodes) :
    e ∈ (parseDlPath nodes).2 ∨ e.tag.isMp "dlpath" = true := by
  cases nodes with
  | nil => cases he
  | cons first rest =>
    rw [parseDlPath]
    split
    · rename_i hmp
      rcases List.mem_cons.mp he with rfl | he
      · exact .inr hmp
      · exact .inl he
    · exact .inl he

theorem parseTopFilters_ok {nodes nodes' : List Element}
    (h : parseTopFilters env dlPath nodes = .ok (ids, nodes')) :
    nodes' <:+ nodes ∧ (∀ e ∈ nodes, e ∈ nodes' ∨ e.tag.isMp "filters" = true) ∧
    ∀ id f, ids.lookup id = some f → ∃ e ∈ nodes, e.tag.isMp "filters" = true ∧
      (∀ x ∈ elements e.children, x.tag.isMp "filter" = true) ∧ f.config ∈ elements e.children := by
  have hempty : ∀ id (f : Filter), (∅ : Table String Filter).lookup id ≠ some f := by
    intro id f hf
    rw [AList.lookup_empty] at hf
    cases hf
  cases nodes with
  | nil =>
    cases h
    exact ⟨List.suffix_refl _, List.forall_mem_nil _, fun id f hf => absurd hf (hempty id f)⟩
  | cons e rest =>
    rw [parseTopFilters] at h
    split at h
    · rename_i hmp
      obtain ⟨ids', hparse, h⟩ := bind_eq_ok h
      cases h
      obtain ⟨hall, hlookup⟩ := parseXmlFilters_ok hparse
      refine ⟨List.suffix_cons _ _, List.forall_mem_cons.mpr ⟨.inr hmp, fun x hx => .inl hx⟩,
        fun id f hf => ⟨e, List.mem_cons_self, hmp, hall, ?_⟩⟩
      exact (hlookup id f hf).resolve_left (hempty id f)
    · cases h
      exact ⟨List.suffix_refl _, fun x hx => .inl hx, fun id f hf => absurd hf (hempty id f)⟩

/-- A filter of a route has an element that the check has met. -/
theorem config_checked {root : Element}
    (hcheck : checkRoot routes (elements root.children) = .ok ()) {top : Element}
    (htop : top ∈ elements root.children) (hmp : top.tag.isMp "filters" = true)
    (hall : ∀ x ∈ elements top.children, x.tag.isMp "filter" = true) {e : Element}
    (he : e ∈ elements top.children) : ∀ r ∈ childRoutes e, (routes.lookup r).isSome = true := by
  -- there are no groups at the top
  have hflat : top.children.flatten isGroup = top.children.siblings := by
    refine Forest.flatten_siblings fun x hx => ?_
    obtain ⟨data, children⟩ := x
    cases data with
    | element tag => exact isMp_ne (hall ⟨tag, children⟩ (mem_elements.mpr hx)) (by decide)
    | text content => rfl
    | other => rfl
  refine childRoutes_checked ((checkRoot_ok hcheck top htop).1 hmp) ?_ (hall e he)
  rw [hflat]
  exact mem_elements.mp he

/-- The element is the first of the list. -/
theorem cons_of_check {nodes : List Element} {name : String} {e : Element}
    (h : checkElementMp nodes.head? name = .ok e) :
    nodes = e :: nodes.tail ∧ e.tag.isMp name = true := by
  obtain ⟨hhead, hmp⟩ := checkElementMp_ok h
  exact ⟨(List.cons_head?_tail hhead).symm, hmp⟩

/-- What is before the last element has other names. -/
theorem routes_only {all nodes nodes' : List Element} {start routesNode : Element}
    (hdlPath : ∀ e ∈ all, e ∈ nodes ∨ e.tag.isMp "dlpath" = true)
    (hstart : nodes = start :: nodes.tail) (hmpStart : start.tag.isMp "start" = true)
    (hfilters : ∀ e ∈ nodes.tail, e ∈ nodes' ∨ e.tag.isMp "filters" = true)
    (hlast : nodes' = [routesNode]) :
    ∀ e ∈ all, e.tag.isMp "routes" = true → e = routesNode := by
  intro e he heroutes
  have hnot : ∀ name, name ≠ "routes" → ¬ e.tag.isMp name = true := by
    intro name hne hmp
    rw [isMp_ne hmp hne] at heroutes
    cases heroutes
  have he := (hdlPath e he).resolve_right (hnot _ (by decide))
  rw [hstart] at he
  rcases List.mem_cons.mp he with rfl | he
  · exact absurd hmpStart (hnot _ (by decide))
  · have he := (hfilters e he).resolve_right (hnot _ (by decide))
    rw [hlast] at he
    exact List.mem_singleton.mp he

/-- The tables of a document whose checks have gone well. -/
theorem accepted_of_tables {root routesNode : Element} {startRoute : String}
    (hmem : routesNode ∈ elements root.children) (hmp : routesNode.tag.isMp "routes" = true)
    (honly : ∀ e ∈ elements root.children, e.tag.isMp "routes" = true → e = routesNode)
    (hroutes : parseXmlRoutes env dlPath ids (elements routesNode.children) = .ok routes)
    (hcheck : checkRoot routes (elements root.children) = .ok ())
    (hids : ∀ id f, ids.lookup id = some f →
      ∀ r ∈ childRoutes f.config, (routes.lookup r).isSome = true)
    (hstart : (routes.lookup startRoute).isSome = true) :
    Accepted root ⟨ids, routes, startRoute, dlPath⟩ := by
  obtain ⟨first, -, hloop⟩ := bind_eq_ok hroutes
  obtain ⟨-, hall, hlookup⟩ := parseXmlRoutesLoop_ok hloop
  have hparsed : ∀ id route, routes.lookup id = some route →
      ∃ e ∈ leadingRoutes (elements routesNode.children), e.attr "id" = id ∧
        parseXmlFilters1 env dlPath ids e.children [] = .ok route := by
    intro id route hr
    refine (hlookup id route hr).resolve_left fun hempty => ?_
    rw [AList.lookup_empty] at hempty
    cases hempty
  have hroutesChecked := (checkRoot_ok hcheck routesNode hmem).2 hmp
  refine ⟨hstart, fun id route hr f hf => ?_, fun e he => ?_, fun id route hr => ?_⟩
  · obtain ⟨e, he, -, hparse⟩ := hparsed id route hr
    have hroute : e.tag.isMp "route" = true := by
      simpa using List.mem_takeWhile_imp he
    have hchecked := checkRoutes_ok hroutesChecked e (List.takeWhile_subset _ he) hroute
    have hmap := route_of_parse hparse
    obtain ⟨x, hx, hentry⟩ : ∃ x ∈ routeFilters e.children, entry ids x = some f := by
      have hmem : some f ∈ route.map some := List.mem_map_of_mem hf
      rw [hmap] at hmem
      exact List.mem_map.mp hmem
    rw [entry] at hentry
    split at hentry
    · exact hids _ f hentry
    · split at hentry
      · cases hentry
        obtain ⟨hx, hused⟩ := List.mem_filter.mp hx
        obtain ⟨hfilter, -⟩ := Bool.and_eq_true_iff.mp hused
        exact childRoutes_checked hchecked (mem_toElement.mp hx) hfilter
      · cases hentry
  · obtain ⟨node, hnode, he⟩ := List.mem_flatMap.mp he
    obtain ⟨hnode, hnodemp⟩ := List.mem_filter.mp hnode
    rw [honly node hnode hnodemp] at he
    exact hall e he
  · obtain ⟨e, he, hid, hparse⟩ := hparsed id route hr
    refine ⟨e, ?_, hid, route_of_parse hparse⟩
    exact List.mem_flatMap.mpr ⟨routesNode, List.mem_filter.mpr ⟨hmem, hmp⟩, he⟩

theorem accepted_of_parse {doc : Option (Option Element)} {rep : Rep}
    (h : parseXmlConfigDom env doc = .ok rep) :
    ∃ given root, doc = some given ∧ env.xmlInclude given = some (some root) ∧
      Accepted root rep := by
  obtain ⟨given, hdoc, h1⟩ := bind_eq_ok h
  obtain ⟨root', hinclude, h2⟩ := bind_eq_ok h1
  obtain ⟨root, hroot, h3⟩ := bind_eq_ok h2
  rw [(checkElementMp_ok hroot).1] at hinclude
  refine ⟨given, root, elim_eq_ok hdoc, elim_eq_ok hinclude, ?_⟩
  have hsuffix := parseDlPath_suffix (elements root.children)
  have hdlPath : ∀ e ∈ elements root.children, e ∈ (parseDlPath (elements root.children)).2 ∨
      e.tag.isMp "dlpath" = true := fun e he => mem_parseDlPath he
  cases hdl : parseDlPath (elements root.children) with
  | mk dlPath nodes =>
    rw [hdl] at h3 hsuffix hdlPath
    obtain ⟨start, hstartNode, h4⟩ := bind_eq_ok h3
    obtain ⟨values, -, h5⟩ := bind_eq_ok h4
    obtain ⟨⟨ids, nodes'⟩, htop, h6⟩ := bind_eq_ok h5
    obtain ⟨routesNode, hroutesNode, h7⟩ := bind_eq_ok h6
    obtain ⟨routes, hroutes, h8⟩ := bind_eq_ok h7
    obtain ⟨hcons, hmp⟩ := cons_of_check hroutesNode
    obtain ⟨hconsStart, hmpStart⟩ := cons_of_check hstartNode
    obtain ⟨hsuffix', hfilters, hids⟩ := parseTopFilters_ok htop
    have htail : nodes.tail <:+ elements root.children := (List.tail_suffix nodes).trans hsuffix
    have hmem : routesNode ∈ elements root.children := by
      refine (hsuffix'.trans htail).subset ?_
      rw [hcons]
      exact List.mem_cons_self
    split at h8
    · cases h8
    · rename_i hlast
      obtain ⟨⟨⟩, hcheck, h9⟩ := bind_eq_ok h8
      split at h9
      · rename_i hstart
        cases h9
        rw [hlast] at hcons
        have honly := routes_only hdlPath hconsStart hmpStart hfilters hcons
        refine accepted_of_tables hmem hmp honly hroutes hcheck ?_ hstart
        intro id f hf
        obtain ⟨top, htopmem, htopmp, hall, hconfig⟩ := hids id f hf
        exact config_checked hcheck (htail.subset htopmem) htopmp hall hconfig
      · cases h9

end RouterFleXML
end Metaproxy
