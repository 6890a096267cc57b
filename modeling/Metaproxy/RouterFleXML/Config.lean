import Metaproxy.Lib.Table
import Metaproxy.Xml

/-!
# RouterFleXML.Config

`router_flexml.cpp`: how a configuration document becomes routes of filters.

A filter is made by the factory and configured with its element. Both may throw, which is all that
is known of them here (`Env.make`). Includes are expanded before anything is read.
-/

namespace Metaproxy
namespace RouterFleXML

open Lib Xml

structure Env where
  /-- `yaz_xml_include_glob`, if there is an include path. -/
  xmlInclude : Option Element → Option (Option Element)
  /-- `exist`, `add_creator_dl` from the `dlpath` and `create` for a type, then `configure`. -/
  make : (dlPath type : String) → Element → Except ConfigError Unit

/-- A filter as the factory has made it, and the element it is configured with. -/
structure Filter where
  type : String
  config : Element
deriving DecidableEq, Repr

/-- `m_list`. -/
abbrev Route := List Filter

structure Rep where
  idFilterMap : Table String Filter
  routes : Table String Route
  startRoute : String
  dlPath : String

/-! ## Attributes -/

/-- The loop over the attributes of an element. `base` is what XInclude leaves. -/
def attrLoop (allowed : List String) (text : String) :
    List Attr → (String → String) → Except ConfigError (String → String)
  | [], values => .ok values
  | attr :: rest, values =>
    if attr.name ∈ allowed then
      attrLoop allowed text rest (Function.update values attr.name attr.value)
    else if attr.name = "base" then attrLoop allowed text rest values
    else .error (.xml (text ++ attr.name))

def filterAttrs (e : Element) : Except ConfigError (String → String) :=
  attrLoop ["id", "type"] "Only attribute id or type allowed in filter element. Got "
    e.tag.properties fun _ => ""

def routeFilterAttrs (e : Element) : Except ConfigError (String → String) :=
  attrLoop ["refid", "type"] "Only attribute 'refid' or 'type' allowed for element 'filter'. Got "
    e.tag.properties fun _ => ""

def routeAttrs (e : Element) : Except ConfigError (String → String) :=
  attrLoop ["id"] "Only attribute 'id' allowed for element 'route'. Got " e.tag.properties
    fun _ => ""

/-- `m_start_route` is `start` before. -/
def startAttrs (e : Element) : Except ConfigError (String → String) :=
  attrLoop ["route"] "Only attribute route allowed in element 'start'. Got " e.tag.properties
    fun _ => "start"

/-! ## Filters and routes -/

section

variable (env : Env) (dlPath : String)

def parseXmlFilters : List Element → Table String Filter → Except ConfigError (Table String Filter)
  | [], ids => .ok ids
  | e :: rest, ids => do
    let _ ← checkElementMp (some e) "filter"
    let values ← filterAttrs e
    env.make dlPath (values "type") e
    if (ids.lookup (values "id")).isSome then
      .error (.xml ("Filter " ++ values "id" ++ " already defined"))
    else parseXmlFilters rest (ids.insert (values "id") ⟨values "type", e⟩)

variable (ids : Table String Filter)

/-- A `filter` of a route; one without a `refid` and a `type` is left out. -/
def parseRouteFilter (route : Route) (e : Element) : Except ConfigError Route := do
  let _ ← checkElementMp (some e) "filter"
  let values ← routeFilterAttrs e
  if values "refid" ≠ "" then
    match ids.lookup (values "refid") with
    | none => .error (.xml ("Unknown filter refid " ++ values "refid"))
    | some f => .ok (route ++ [f])
  else if values "type" ≠ "" then do
    env.make dlPath (values "type") e
    .ok (route ++ [⟨values "type", e⟩])
  else .ok route

def parseXmlFilters1 : Node → Route → Except ConfigError Route
  | .null, route => .ok route
  | .node (.element tag) children next, route =>
    if tag.isMp "filters" then do
      let route ← parseXmlFilters1 children route
      parseXmlFilters1 next route
    else do
      let route ← parseRouteFilter env dlPath ids route ⟨tag, children⟩
      parseXmlFilters1 next route
  | .node _ _ next, route => parseXmlFilters1 next route

/-- Up to the first element that is no route. -/
def parseXmlRoutesLoop : List Element → Table String Route →
    Except ConfigError (Table String Route)
  | [], routes => .ok routes
  | e :: rest, routes =>
    if e.tag.isMp "route" then do
      let values ← routeAttrs e
      let route ← parseXmlFilters1 env dlPath ids e.children []
      if (routes.lookup (values "id")).isSome then
        .error (.xml ("Route id='" ++ values "id" ++ "' already exist"))
      else parseXmlRoutesLoop rest (routes.insert (values "id") route)
    else .ok routes

def parseXmlRoutes (nodes : List Element) : Except ConfigError (Table String Route) := do
  let _ ← checkElementMp nodes.head? "route"
  parseXmlRoutesLoop env dlPath ids nodes ∅

end

/-! ## Routes that filters name -/

section

variable (routes : Table String Route)

/-- The `route` attributes of an element. -/
def checkRouteAttrs : List Attr → Except ConfigError Unit
  | [] => .ok ()
  | attr :: rest =>
    if attr.name = "route" ∧ (routes.lookup attr.value).isNone then
      .error (.xml ("Route '" ++ attr.value ++ "' does not exist"))
    else checkRouteAttrs rest

/-- The elements one level below a filter. -/
def checkFilter : List Element → Except ConfigError Unit
  | [] => .ok ()
  | e :: rest => do
    checkRouteAttrs routes e.tag.properties
    checkFilter rest

def checkRoutesInFilters : Node → Except ConfigError Unit
  | .null => .ok ()
  | .node (.element tag) children next =>
    if tag.isMp "filters" then do
      checkRoutesInFilters children
      checkRoutesInFilters next
    else if tag.isMp "filter" then do
      checkFilter routes (elements children)
      checkRoutesInFilters next
    else checkRoutesInFilters next
  | .node _ _ next => checkRoutesInFilters next

/-- The routes of a `routes` element. -/
def checkRoutes : List Element → Except ConfigError Unit
  | [] => .ok ()
  | e :: rest =>
    if e.tag.isMp "route" then do
      checkRoutesInFilters routes e.children
      checkRoutes rest
    else checkRoutes rest

/-- The elements below the root. -/
def checkRoot : List Element → Except ConfigError Unit
  | [] => .ok ()
  | e :: rest =>
    if e.tag.isMp "filters" then do
      checkRoutesInFilters routes e.children
      checkRoot rest
    else if e.tag.isMp "routes" then do
      checkRoutes routes (elements e.children)
      checkRoot rest
    else checkRoot rest

end

/-! ## `parse_xml_config_dom` -/

/-- The optional `dlpath`, and what follows. -/
def parseDlPath : List Element → String × List Element
  | [] => ("", [])
  | e :: rest => if e.tag.isMp "dlpath" then (getText e, rest) else ("", e :: rest)

/-- The optional `filters`, and what follows. -/
def parseTopFilters (env : Env) (dlPath : String) :
    List Element → Except ConfigError (Table String Filter × List Element)
  | [] => .ok (∅, [])
  | e :: rest =>
    if e.tag.isMp "filters" then do
      let ids ← parseXmlFilters env dlPath (elements e.children) ∅
      .ok (ids, rest)
    else .ok (∅, e :: rest)

/-- `doc` is a document and its root, if it has one. -/
def parseXmlConfigDom (env : Env) (doc : Option (Option Element)) : Except ConfigError Rep := do
  let root ← doc.elim (.error (.xml "Empty XML Document")) .ok
  let root ← (env.xmlInclude root).elim (.error (.xml "YAZ XML Include failed")) .ok
  let root ← checkElementMp root "metaproxy"
  let (dlPath, nodes) := parseDlPath (elements root.children)
  let start ← checkElementMp nodes.head? "start"
  let values ← startAttrs start
  let (ids, nodes) ← parseTopFilters env dlPath nodes.tail
  let routesNode ← checkElementMp nodes.head? "routes"
  let routes ← parseXmlRoutes env dlPath ids (elements routesNode.children)
  match nodes.tail with
  | e :: _ => .error (.xml ("Unexpected element " ++ e.tag.name))
  | [] => do
    checkRoot routes (elements root.children)
    if (routes.lookup (values "route")).isSome then
      .ok ⟨ids, routes, values "route", dlPath⟩
    else .error (.xml ("Start route '" ++ values "route" ++ "' not found"))

end RouterFleXML
end Metaproxy
