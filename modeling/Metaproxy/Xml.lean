import Mathlib.Logic.Function.Basic
import Metaproxy.Lib.Forest
import Metaproxy.Lib.LastWins

/-!
# Xml

A document as libxml has it, and what `xmlutil.cpp` reads of it.
-/

namespace Metaproxy

/-- What a configuration is refused with: an `XMLError`, or what a filter throws. -/
inductive ConfigError where
  | xml (msg : String)
  | filter (msg : String)
deriving DecidableEq, Repr

namespace Xml

open Lib

/-- `text` is the content of the first child, if that is a text. -/
structure Attr where
  name : String
  text : Option String
deriving DecidableEq, Repr

structure Tag where
  /-- The `href` of the namespace. -/
  ns : Option String
  name : String
  properties : List Attr
deriving DecidableEq, Repr

inductive Data where
  | element (tag : Tag)
  | text (content : String)
  /-- A comment, a processing instruction. -/
  | other
deriving DecidableEq, Repr

abbrev Node := Forest Data

structure Element where
  tag : Tag
  children : Node
deriving DecidableEq, Repr

def Attr.value (attr : Attr) : String := attr.text.getD ""

def metaproxyNs : String := "http://indexdata.com/metaproxy"

def Tag.isMp (tag : Tag) (name : String) : Bool := tag.ns = some metaproxyNs && tag.name = name

def toElement : Data × Node → Option Element
  | (.element tag, children) => some ⟨tag, children⟩
  | _ => none

/-- The elements that `jump_to_children` and `jump_to_next` stop at. -/
def elements (children : Node) : List Element := children.siblings.filterMap toElement

def gotElement (node : Option Element) : String :=
  let name := (node.map (·.tag.name)).getD ""
  let ns := match node.bind (·.tag.ns) with
    | some ns => " xmlns=\"" ++ ns ++ "\""
    | none => ""
  "<" ++ name ++ ns ++ ">"

def checkElementMp (node : Option Element) (name : String) : Except ConfigError Element :=
  match node.filter fun e => e.tag.isMp name with
  | some e => .ok e
  | none => .error (.xml ("Expected XML element <" ++ name ++ " xmlns=\"" ++ metaproxyNs ++ "\">" ++
      ", not " ++ gotElement node))

/-- The texts below an element, one after the other. -/
def getText (e : Element) : String :=
  e.children.siblings.foldl (fun c node =>
    match node.1 with
    | .text content => c ++ content
    | _ => c) ""

/-- The last attribute with the name decides. -/
def Element.attr (e : Element) (name : String) : String :=
  lastValue (fun attr => some attr.name) Attr.value name e.tag.properties ""

/-- The attributes that an element may have; the last with a name decides. -/
def parseAttr (names : List String) (node : String) :
    List Attr → (String → String) → Except ConfigError (String → String)
  | [], values => .ok values
  | attr :: rest, values =>
    if attr.name ∈ names then
      parseAttr names node rest (Function.update values attr.name attr.value)
    else
      .error (.xml ("Unsupported attribute: '" ++ attr.name ++ "' in element '" ++ node ++ "'"))

/-- How filters read the route that an element names. -/
def getRoute (e : Element) : Except ConfigError String :=
  (parseAttr ["route"] e.tag.name e.tag.properties fun _ => "").map fun values => values "route"

/-- The same with an `auth` beside it. -/
def getRouteAuth (e : Element) : Except ConfigError (String × String) :=
  (parseAttr ["route", "auth"] e.tag.name e.tag.properties fun _ => "").map fun values =>
    (values "route", values "auth")

theorem mem_toElement {e : Element} {l : List (Data × Node)} :
    e ∈ l.filterMap toElement ↔ (.element e.tag, e.children) ∈ l := by
  rw [List.mem_filterMap]
  constructor
  · rintro ⟨⟨data, below⟩, hmem, he⟩
    cases data with
    | element tag =>
      cases he
      exact hmem
    | text content => cases he
    | other => cases he
  · intro hmem
    exact ⟨_, hmem, rfl⟩

theorem mem_elements {e : Element} {children : Node} :
    e ∈ elements children ↔ (.element e.tag, e.children) ∈ children.siblings :=
  mem_toElement

theorem checkElementMp_ok {node : Option Element} {name : String} {e : Element}
    (h : checkElementMp node name = .ok e) : node = some e ∧ e.tag.isMp name = true := by
  rw [checkElementMp] at h
  split at h
  · rename_i e' he'
    cases h
    exact Option.filter_eq_some_iff.mp he'
  · cases h

/-- The value that is read is that of an attribute, unless none has the name. -/
theorem parseAttr_mem {names : List String} {node name : String} {attrs : List Attr}
    {values values' : String → String} (h : parseAttr names node attrs values = .ok values') :
    values' name = values name ∨ ∃ attr ∈ attrs, attr.name = name ∧ attr.value = values' name := by
  induction attrs generalizing values with
  | nil =>
    cases h
    exact .inl rfl
  | cons attr rest ih =>
    rw [parseAttr] at h
    split at h
    · rcases ih h with heq | ⟨attr', hmem, hname, hvalue⟩
      · by_cases hname : attr.name = name
        · rw [← hname, Function.update_self] at heq
          exact .inr ⟨attr, List.mem_cons_self, hname, by rw [← hname]; exact heq.symm⟩
        · rw [Function.update_of_ne (Ne.symm hname)] at heq
          exact .inl heq
      · exact .inr ⟨attr', List.mem_cons_of_mem _ hmem, hname, hvalue⟩
    · cases h

/-- An element has one name. -/
theorem isMp_ne {tag : Tag} {name name' : String} (h : tag.isMp name = true) (hne : name ≠ name') :
    tag.isMp name' = false := by
  simp only [Tag.isMp, Bool.and_eq_true, decide_eq_true_eq] at h
  simp [Tag.isMp, h.2, hne]

end Xml
end Metaproxy
