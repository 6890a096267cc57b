import Metaproxy.Lib.Table
import Metaproxy.Z3950

/-!
# Zoom.Backend

What `filter_zoom.cpp` keeps of a session, and what it is answered from outside: by YAZ (`Yaz`), and
by the Torus, the target and its proxy in one attempt of a search (`Attempt`).

A result set is known by its number among those of the session, and so is an Explain document.
-/

namespace Metaproxy
namespace Zoom

open Lib
open Z3950 (DefaultDiagFormat)

/-- An error and its additional information. -/
abbrev Diag := DefaultDiagFormat

inductive XmlNode where
  | element (name : List Char) (children : List XmlNode)
  | other (content : List Char)

/-! ## Configuration -/

/-- What is used here of a target profile. -/
structure Searchable where
  authentication : List Char
  cfAuth : List Char
  cfProxy : List Char
  cfSubDB : List Char
  /-- `cf_param`. -/
  cfParam : Table (List Char) (List Char)
  contentConnector : List Char
  noCproxy : List Char
  retryOnFailure : List Char
  sru : List Char
  rpn2cqlFname : List Char
  cclBibset : Table (List Char) (List Char)

/-- `Impl`; `explainXsp` says whether there is a stylesheet. -/
structure Impl where
  torusSearchableUrl : List Char
  torusContentUrl : List Char
  defaultRealm : List Char
  sMap : Table (List Char) Searchable
  fieldmap : Table (List Char) (List Char)
  explainXsp : Bool

/-! ## Requests -/

/-- A query of type 1 or 101 is given by its prefix notation. -/
inductive Query where
  | type1 (pqf : List Char)
  | type2 (ccl : List Char)
  | type104 (cql : List Char)
  | other (encoding : List UInt8)
deriving DecidableEq, Repr

structure SearchRequest where
  databaseNames : List (List Char)
  query : Query
  smallSetUpperBound : Int
  largeSetLowerBound : Int
  mediumSetPresentNumber : Int
deriving DecidableEq, Repr

/-! ## A session -/

/-- A `Backend` with a connection; `m_resultset` may be null. -/
structure Backend where
  resultset : Option Nat
  frontendDatabase : List Char
  sptr : Searchable
  enableCproxy : Bool
  proxy : List Char
  retryOnFailure : List Char

/-- A `Backend` with `enable_explain`. -/
structure Explained where
  number : Nat
  frontendDatabase : List Char
  explainDoc : List XmlNode

inductive BackendPtr where
  | target (b : Backend)
  | explain (e : Explained)

/-- `Frontend`; `made` counts the result sets and Explain documents so far. -/
structure Frontend where
  sessionRealm : List Char
  backend : Option BackendPtr
  made : Nat

/-! ## From outside -/

inductive CqlNode where
  | st (index : Option (List Char)) (relationAndTerm : List Char)
  | bool (left right : CqlNode) (op : List Char)
  | sort (search : CqlNode) (keys : List Char)

inductive CclError where
  | unknownQual
  | truncNotLeft
  | truncNotRight
  | truncNotBoth
  | truncNotEmbed
  | truncNotSingle
  | other (code : Int)
deriving DecidableEq, Repr

structure Yaz where
  /-- `yaz_uri_to_array`: names and values. -/
  uriToArray : List Char → List (List Char × List Char)
  /-- `nmem_strsplit` at commas. -/
  strsplit : List Char → List (List Char)
  cqlParserString : List Char → Option CqlNode
  cqlToCcl : CqlNode → Option (List Char)
  cqlSortbyToSortkeys : CqlNode → Option (List Char)
  /-- `ccl_find_str`, and `ccl_pquery` of what it finds. -/
  cclFindStr : Table (List Char) (List Char) → List Char → Except CclError (List Char)
  cclErrMsg : CclError → List Char
  /-- `cql_transform_rpn2cql_stream_r`, or the like for Solr. -/
  rpn2cql : (fname sru pqf : List Char) → Except Diag (List Char)

/-- A `ZOOM_record`: its error, and what it is in the response, if it can be converted. -/
structure ZoomRecord where
  error : Option Diag
  content : Except Diag (List Char)

/-- What `ZOOM_resultset_records` comes to. -/
structure Presented where
  error : Option Diag
  recs : List (Option ZoomRecord)

/-- The document of the Torus for a database. -/
inductive TorusAnswer where
  | failure (addinfo : List Char)
  | records (l : List Searchable)
  | badRoot (name : List Char)

structure Attempt where
  torus : TorusAnswer
  /-- Whether the stylesheet or the CQL configuration of the target cannot be used. -/
  unusable : Option Diag
  /-- The documents that are shown of the Torus, or what is said about their failure. -/
  explain : Except (List Char) (List XmlNode)
  connect : Option Diag
  contentSession : Option Diag
  search : Except Diag Int
  present : Presented
  /-- `check_proxy`. -/
  checkProxy : Bool

end Zoom
end Metaproxy
