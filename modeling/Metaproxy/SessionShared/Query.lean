import Metaproxy.Lib.Formula
import Metaproxy.Lib.Table
import Metaproxy.Util

/-!
# SessionShared.Query

The queries of `filter_session_shared.cpp` and what a frontend does with them: `search` looks up
the result set name, replaces every operand that refers to a result set (`result_set_ref`), hands
the query to `get_set` and, when that finds a set, stores it in `m_frontend_sets`.

The decoded Z39.50 structures are kept as far as the filter looks at them; attribute values that
are not numbers, terms and other query types are their encodings.
-/

namespace Metaproxy
namespace SessionShared

open Lib

abbrev Oid := List Nat

inductive AttributeValue where
  | numeric (n : Int)
  | complex (encoding : List UInt8)
deriving DecidableEq, Repr

structure AttributeElement where
  attributeSet : Option Oid
  attributeType : Int
  value : AttributeValue
deriving DecidableEq, Repr

inductive Operand where
  | apt (attributes : List AttributeElement) (term : List UInt8)
  | resultSetId (id : String)
  | resultAttr (id : String) (attributes : List AttributeElement)
deriving DecidableEq, Repr

inductive Operator where
  | and
  | or
  | andNot
  | prox (encoding : List UInt8)
deriving DecidableEq, Repr

abbrev RPNStructure := Formula Operator Operand

structure RPNQuery where
  attributeSetId : Oid
  rpn : RPNStructure
deriving DecidableEq, Repr

inductive Query where
  | type1 (q : RPNQuery)
  | type101 (q : RPNQuery)
  | other (encoding : List UInt8)
deriving DecidableEq, Repr

def Query.rpn? : Query → Option RPNQuery
  | .type1 q => some q
  | .type101 q => some q
  | .other _ => none

/-- The query with another tree: `s->which` and `s->u` are overwritten in place. -/
def Query.withRpn : Query → RPNStructure → Query
  | .type1 q, t => .type1 { q with rpn := t }
  | .type101 q, t => .type101 { q with rpn := t }
  | .other e, _ => .other e

structure FrontendSet where
  databases : List String
  query : Query
deriving DecidableEq, Repr

abbrev FrontendSets := Table String FrontendSet

/-- An operand that refers to a result set becomes the tree of the query stored for it. -/
def resultSetRef (sets : FrontendSets) (databases : List String) :
    RPNStructure → Except (Bib1 × String) RPNStructure
  | .leaf (.resultSetId id) =>
    match sets.lookup id with
    | none => .error (.specifiedResultSetDoesNotExist, id)
    | some fset =>
      if Util.match_ fset.databases databases then
        match fset.query.rpn? with
        | some q => .ok q.rpn
        | none => .error (.specifiedResultSetDoesNotExist, id)
      else .error (.specifiedResultSetDoesNotExist, id)
  | .leaf op => .ok (.leaf op)
  | .node s1 s2 op =>
    match resultSetRef sets databases s1 with
    | .error e => .error e
    | .ok s1 =>
      match resultSetRef sets databases s2 with
      | .error e => .error e
      | .ok s2 => .ok (.node s1 s2 op)

structure SearchRequest where
  resultSetName : String
  replaceIndicator : Bool
  databaseNames : List String
  query : Query
  /-- Encoding of `additionalSearchInfo`. -/
  additionalSearchInfo : Option (List UInt8)
deriving DecidableEq, Repr

/-- `search` up to the call of `get_set`: the sets that are left, and the diagnostic of the search
response or the query to look for. -/
def prepareSearch (sets : FrontendSets) (req : SearchRequest) :
    FrontendSets × Except (Bib1 × String) Query :=
  if (sets.lookup req.resultSetName).isSome && !req.replaceIndicator then
    (sets, .error (.resultSetExistsAndReplaceIndicatorOff, ""))
  else
    let sets := sets.erase req.resultSetName
    match req.query.rpn? with
    | none => (sets, .ok req.query)
    | some q =>
      match resultSetRef sets req.databaseNames q.rpn with
      | .error e => (sets, .error e)
      | .ok rpn => (sets, .ok (req.query.withRpn rpn))

/-- `search` after `get_set` has found a set. -/
def storeSet (sets : FrontendSets) (req : SearchRequest) (query : Query) : FrontendSets :=
  sets.insert req.resultSetName ⟨req.databaseNames, query⟩

/-- A whole search, as far as `m_frontend_sets` goes; `found` says whether `get_set` found a set. -/
def search (sets : FrontendSets) (req : SearchRequest) (found : Bool) : FrontendSets :=
  match prepareSearch sets req with
  | (sets, .error _) => sets
  | (sets, .ok query) => if found then storeSet sets req query else sets

end SessionShared
end Metaproxy
