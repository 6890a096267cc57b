import Metaproxy.HttpRewrite.Phase

/-!
# HttpRewrite.Configure

`configure` of `filter_http_rewrite.cpp`: the phases that an XML element describes, or why it is not
accepted. Nodes that are no elements are left out, and an attribute has one text.
-/

namespace Metaproxy
namespace HttpRewrite

open Lib

inductive Element where
  | mk (name : String) (properties : List (String × List Char)) (children : List Element)

def Element.name : Element → String
  | mk name _ _ => name

def Element.properties : Element → List (String × List Char)
  | mk _ properties _ => properties

def Element.children : Element → List Element
  | mk _ _ children => children

inductive ConfigError where
  | filterException (message : List Char)
  | xmlError (message : String)
  | regexError (pattern : List Char)
deriving DecidableEq, Repr

def ConfigError.filter (message : String) : ConfigError := .filterException message.toList

/-- `parse_attr`. A name that is not there has an empty value. -/
def parseAttr (node : Element) (names : List String) : Except ConfigError (String → List Char) :=
  match node.properties.find? fun attr => attr.1 ∉ names with
  | some attr => .error (.xmlError
      ("Unsupported attribute: '" ++ attr.1 ++ "' in element '" ++ node.name ++ "'"))
  | none => .ok fun name => ((node.properties.find? fun attr => attr.1 = name).map Prod.snd).getD []

/-! ## `parse_groups` -/

/-- The name of a group, behind `<`, and what is behind it. -/
def groupName (pattern s : List Char) : Except ConfigError (List Char × List Char) :=
  let gname := s.takeWhile Char.isAlphanum
  match s.dropWhile Char.isAlphanum with
  | [] => .error (.filterException ("Unterminated group name '".toList ++ gname ++
      " in '".toList ++ pattern ++ "'".toList))
  | c :: s1 =>
    if c = '>' then .ok (gname, s1)
    else .error (.filterException ("Only alphanumeric chars allowed, found  in '".toList ++
      pattern ++ "' at ".toList ++ (toString (pattern.length - (s1.length + 1))).toList))

/-- `(?P` is as good as `(?`. -/
def skipPython (s : List Char) : List Char := if s.head? = some 'P' then s.tail else s

theorem length_skipPython_le (s : List Char) : (skipPython s).length ≤ s.length := by
  unfold skipPython
  split
  · simp
  · exact Nat.le_refl _

theorem length_groupName_le {pattern s : List Char} {p : List Char × List Char}
    (h : groupName pattern s = .ok p) : p.2.length ≤ s.length := by
  have hle := (List.dropWhile_sublist Char.isAlphanum (l := s)).length_le
  unfold groupName at h
  simp only at h
  split at h
  · cases h
  · rename_i c s1 heq
    split at h
    · cases h
      rw [heq] at hle
      simp at hle ⊢
      omega
    · cases h

/-- The loop of `parse_groups` from `s` on: the pattern without names, and the names. -/
def parseGroupsLoop (pattern : List Char) (esc : Bool) (gnum : Nat)
    (groupIndex : Table Nat (List Char)) (res s : List Char) :
    Except ConfigError (List Char × Table Nat (List Char)) :=
  match s with
  | [] => .ok (res, groupIndex)
  | c :: s1 =>
    if !esc && c = '\\' then parseGroupsLoop pattern true gnum groupIndex (res ++ [c]) s1
    else if !esc && c = '(' && s1.head? = some '?' then
      if s1.tail.head? = some ':' then
        parseGroupsLoop pattern false gnum groupIndex (res ++ [c, '?', ':']) s1.tail.tail
      else
        have := length_skipPython_le s1.tail
        if (skipPython s1.tail).head? = some '<' then
          match h : groupName pattern (skipPython s1.tail).tail with
          | .error e => .error e
          | .ok p =>
            have := length_groupName_le h
            parseGroupsLoop pattern false (gnum + 1) (groupIndex.insert (gnum + 1) p.1)
              (res ++ [c]) p.2
        else parseGroupsLoop pattern false (gnum + 1) groupIndex (res ++ [c]) (skipPython s1.tail)
    else if !esc && c = '(' then
      parseGroupsLoop pattern false (gnum + 1) groupIndex (res ++ [c]) s1
    else parseGroupsLoop pattern false gnum groupIndex (res ++ [c]) s1
termination_by s.length
decreasing_by all_goals (simp_all; try omega)

variable {ρ : Type} (boost : Boost ρ)

def compile (icase : Bool) (pattern : List Char) : Except ConfigError ρ :=
  match boost.compile icase pattern with
  | none => .error (.regexError pattern)
  | some re => .ok re

/-- `none` for an empty pattern. -/
def assign (pattern : List Char) : Except ConfigError (Option ρ) :=
  if pattern = [] then .ok none else some <$> compile boost true pattern

def parseGroups (pattern recipe : List Char) : Except ConfigError (Replace ρ) := do
  let (res, groupIndex) ← parseGroupsLoop pattern false 0 ∅ [] pattern
  let re ← compile boost false res
  pure ⟨pattern.head? = some '^', re, recipe, groupIndex⟩

/-! ## Elements -/

def property (p : Element) (name : String) : List Char :=
  ((p.properties.find? fun attr => attr.1 = name).map Prod.snd).getD []

/-- A `rewrite` element; without `from` there is none. -/
def configureRewrite (p : Element) : Except ConfigError (List (Replace ρ)) :=
  if p.name = "rewrite" then
    match p.properties.find? fun attr => attr.1 ≠ "from" ∧ attr.1 ≠ "to" with
    | some attr => .error (.filter
        ("Bad attribute " ++ attr.1 ++ " in rewrite section of http_rewrite"))
    | none =>
      if property p "from" = [] then .ok []
      else do pure [← parseGroups boost (property p "from") (property p "to")]
  else .error (.filter ("Bad element " ++ p.name ++ " in http_rewrite filter"))

abbrev Rules (ρ : Type) := Table (List Char) (Rule ρ)

def configureRule (rules : Rules ρ) (ptr : Element) : Except ConfigError (Rules ρ) := do
  let values ← parseAttr ptr ["name"]
  let rule ← ptr.children.mapM (configureRewrite boost)
  pure (rules.insert (values "name") rule.flatten)

def findRule (rules : Rules ρ) (name : List Char) : Except ConfigError (Rule ρ) :=
  match rules.lookup name with
  | none => .error (.filterException ("Reference to non-existing rule '".toList ++ name ++
      "' in http_rewrite filter".toList))
  | some rule => .ok rule

def withinType (type : List Char) : Except ConfigError WithinType :=
  if type = [] then .ok .plain
  else if type = "quoted-literal".toList then .ok .quotedLiteral
  else .error (.filter "within type must be quoted-literal or none in  in http_rewrite filter")

def configureWithin (rules : Rules ρ) (ptr : Element) : Except ConfigError (Within ρ) := do
  let values ← parseAttr ptr ["header", "attr", "tag", "rule", "reqline", "type"]
  let header ← assign boost (values "header")
  let attr ← assign boost (values "attr")
  let tag ← assign boost (values "tag")
  let rule ← ((values "rule").splitOn ',').mapM (findRule rules)
  let type ← withinType (values "type")
  pure ⟨header, attr, tag, type, values "reqline" = ['1'], rule.flatten⟩

def contentType (type : List Char) : ContentType :=
  if type = "headers".toList then .headers
  else if type = "html".toList then .html
  else if type = "quoted-literal".toList then .quotedLiteral
  else .other (String.ofList type)

def configureContent (rules : Rules ρ) (ptr : Element) : Except ConfigError (Content ρ) := do
  let values ← parseAttr ptr ["type", "mime"]
  if values "type" = [] then
    .error (.filter
      ("Missing attribute, type for for element " ++ ptr.name ++ " in http_rewrite filter"))
  else
    let contentRe ← assign boost (values "mime")
    let withinList ← (ptr.children.filter fun p => p.name = "within").mapM
      (configureWithin boost rules)
    pure ⟨contentType (values "type"), contentRe.getD boost.unset, withinList⟩

def configureElement (s : Rules ρ × Phase ρ) (ptr : Element) :
    Except ConfigError (Rules ρ × Phase ρ) := do
  if ptr.name = "rule" then pure (← configureRule boost s.1 ptr, s.2)
  else if ptr.name = "content" then
    pure (s.1, ⟨s.2.contentList ++ [← configureContent boost s.1 ptr]⟩)
  else .error (.filter ("Bad element " ++ ptr.name ++ " in http_rewrite filter"))

/-- `configure_phase`; `verbose` is only logged. -/
def configurePhase (ptr : Element) (phase : Phase ρ) : Except ConfigError (Phase ρ) := do
  let _ ← parseAttr ptr ["verbose"]
  let s ← ptr.children.foldlM (configureElement boost) (∅, phase)
  pure s.2

def configure (ptr : Element) : Except ConfigError (Phases ρ) :=
  ptr.children.foldlM (fun phases ptr => do
    if ptr.name = "request" then
      pure { phases with reqPhase := ← configurePhase boost ptr phases.reqPhase }
    else if ptr.name = "response" then
      pure { phases with resPhase := ← configurePhase boost ptr phases.resPhase }
    else .error (.filter ("Bad element " ++ ptr.name ++ " in http_rewrite filter"))) ⟨⟨[]⟩, ⟨[]⟩⟩

end HttpRewrite
end Metaproxy
