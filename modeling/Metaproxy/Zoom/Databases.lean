import Metaproxy.Zoom.Backend

/-!
# Zoom.Databases

`get_backend_from_databases` of `filter_zoom.cpp`, and `explain_search`. The arguments that go into
the URL are those of `Zoom.Arguments`; the options of a connection are not followed any further.
-/

namespace Metaproxy
namespace Zoom

open Lib
open Z3950 (SearchResponse)

/-- A record of a response. -/
inductive NamePlusRecord where
  | databaseRecord (databaseName content : List Char)
  | surrogateDiagnostic (databaseName : List Char) (d : Diag)
  | explainRecord (databaseName : List Char) (node : XmlNode)

/-- `odr::create_searchResponse` without an error. -/
def searchResponse (resultCount : Int) : SearchResponse NamePlusRecord :=
  ⟨resultCount, 0, 0, true, none⟩

/-! ## Arguments -/

/-- What the arguments come to; `out` is passed on with the URL. -/
structure Args where
  user : Option (List Char)
  password : Option (List Char)
  contentUser : Option (List Char)
  contentPassword : Option (List Char)
  contentProxy : List Char
  nocproxy : Option (List Char)
  retry : Option (List Char)
  proxy : List Char
  proxyStep : Nat
  torusUrl : List Char
  realm : List Char
  out : List (List Char × List Char)

/-- The proxy of this step, and the step after it. -/
def nextProxy {α : Type} (dstr : List α) (proxyStep : Nat) : Option α × Nat :=
  match dstr[proxyStep]? with
  | none => (none, 0)
  | some proxy => (some proxy, if proxyStep + 1 = dstr.length then 0 else proxyStep + 1)

/-- The step after our current proxy. -/
def stepAfter (dstr : List (List Char)) (proxy : List Char) : Nat :=
  let i := dstr.findIdx (· = proxy)
  if i + 1 ≥ dstr.length then 0 else i + 1

/-- A `proxy` argument; the connection may be that of a proxy already. -/
def Args.addProxies (args : Args) (dstr : List (List Char)) (connectionReuse : Bool) : Args :=
  if connectionReuse then { args with proxyStep := stepAfter dstr args.proxy }
  else
    let (proxy, proxyStep) := nextProxy dstr args.proxyStep
    { args with proxy := proxy.getD args.proxy, proxyStep := proxyStep }

def badArgument (name : List Char) : Diag :=
  ⟨.temporarySystemError, "zoom: bad database argument: ".toList ++ name⟩

inductive ArgName where
  | user
  | password
  | contentUser
  | contentPassword
  | contentProxy
  | nocproxy
  | retry
  | proxy
  | cproxysession
  | realm
  | torusUrl
  | x
deriving DecidableEq, Repr

/-- The realm of a session is not changed by an argument, nor its Torus. -/
def argName (sessionRealm name : List Char) : Option ArgName :=
  if name = "user".toList then some .user
  else if name = "password".toList then some .password
  else if name = "content-user".toList then some .contentUser
  else if name = "content-password".toList then some .contentPassword
  else if name = "content-proxy".toList then some .contentProxy
  else if name = "nocproxy".toList then some .nocproxy
  else if name = "retry".toList then some .retry
  else if name = "proxy".toList then some .proxy
  else if name = "cproxysession".toList then some .cproxysession
  else if name = "realm".toList ∧ sessionRealm = [] then some .realm
  else if name = "torus_url".toList ∧ sessionRealm = [] then some .torusUrl
  else if name.take 2 = "x-".toList then some .x
  else none

def Args.add (yaz : Yaz) (torusContentUrl sessionRealm : List Char) (connectionReuse : Bool)
    (args : Args) (p : List Char × List Char) : Except Diag Args :=
  let value := p.2
  match argName sessionRealm p.1 with
  | none => .error (badArgument p.1)
  | some .user => .ok { args with user := some value }
  | some .password => .ok { args with password := some value }
  | some .contentUser => .ok { args with contentUser := some value }
  | some .contentPassword => .ok { args with contentPassword := some value }
  | some .contentProxy => .ok { args with contentProxy := value }
  | some .nocproxy => .ok { args with nocproxy := some value }
  | some .retry => .ok { args with retry := some value }
  | some .proxy => .ok (args.addProxies (yaz.strsplit value) connectionReuse)
  | some .cproxysession => .ok { args with out := args.out ++ [p], torusUrl := torusContentUrl }
  | some .realm => .ok { args with realm := value }
  | some .torusUrl => .ok { args with torusUrl := value }
  | some .x => .ok { args with out := args.out ++ [p] }

def torusDb (database : List Char) : List Char := database.takeWhile (· ≠ ',')

/-- The arguments behind the first comma. -/
def inputArgs (yaz : Yaz) (database : List Char) : List (List Char × List Char) :=
  match (database.dropWhile (· ≠ ',')).tail with
  | [] => []
  | args => yaz.uriToArray args

/-- The connection that is used again. -/
def Frontend.connectionReuse (f : Frontend) (database : List Char) : Option Backend :=
  match f.backend with
  | some (.target b) => if b.frontendDatabase = database then some b else none
  | _ => none

def Args.initial (impl : Impl) (f : Frontend) (database : List Char) (proxyStep : Nat) : Args where
  user := none
  password := none
  contentUser := none
  contentPassword := none
  contentProxy := []
  nocproxy := none
  retry := none
  proxy := ((f.connectionReuse database).map Backend.proxy).getD []
  proxyStep := proxyStep
  torusUrl := impl.torusSearchableUrl
  realm := if f.sessionRealm = [] then impl.defaultRealm else f.sessionRealm
  out := []

def databaseArgs (yaz : Yaz) (impl : Impl) (f : Frontend) (database : List Char)
    (proxyStep : Nat) : Except Diag Args :=
  (inputArgs yaz database).foldlM
    (Args.add yaz impl.torusContentUrl f.sessionRealm (f.connectionReuse database).isSome)
    (.initial impl f database proxyStep)

/-! ## Explain -/

/-- The children of the `m`th `recordData` element that is not in another one, and how many there
are up to it. The counter is an `int`. -/
def xmlNodeSearch (m : Int) : List XmlNode → Nat → Option (List XmlNode) × Nat
  | [], num => (none, num)
  | .other _ :: ptr, num => xmlNodeSearch m ptr num
  | .element name children :: ptr, num =>
    if name = "recordData".toList then
      if m = Util.toInt (num + 1) then (some children, num + 1)
      else xmlNodeSearch m ptr (num + 1)
    else
      match xmlNodeSearch m children num with
      | (some retNode, num) => (some retNode, num)
      | (none, num) => xmlNodeSearch m ptr num

/-- What `get_backend_from_databases` comes back with. -/
inductive Obtained where
  /-- The proxy step is not used without a backend. -/
  | failed (f : Frontend) (b : Option Backend) (error : Diag) (proxyStep : Nat)
  | connected (f : Frontend) (b : Backend) (proxyStep : Nat)
  /-- There is a response already. -/
  | explained (f : Frontend) (res : SearchResponse NamePlusRecord)

def explainSearch (impl : Impl) (f : Frontend) (database : List Char) (query : Query)
    (answer : Except (List Char) (List XmlNode)) : Obtained :=
  let f := { f with backend := none }
  if impl.explainXsp then
    match query with
    | .type104 _ =>
      match answer with
      | .error addinfo => .failed f none ⟨.unspecifiedError, addinfo⟩ 0
      | .ok doc =>
        .explained { f with backend := some (.explain ⟨f.made, database, doc⟩), made := f.made + 1 }
          (searchResponse (Util.toInt (xmlNodeSearch 0 doc 0).2))
    | _ => .failed f none ⟨.queryTypeUnsupp, "IR-Explain---1 only supports CQL".toList⟩ 0
  else .failed f none
    ⟨.unspecifiedError, "IR-Explain---1 unsupported. Torus explain_xsl not defined".toList⟩ 0

/-! ## Targets -/

def findSearchable (impl : Impl) (torusUrl database : List Char) (torus : TorusAnswer) :
    Except Diag Searchable :=
  match impl.sMap.lookup (torusDb database) with
  | some sptr => .ok sptr
  | none =>
    if torusUrl = [] then .error ⟨.databaseDoesNotExist, torusDb database⟩
    else
      match torus with
      | .failure addinfo => .error ⟨.unspecifiedError, addinfo⟩
      | .badRoot name =>
        .error ⟨.unspecifiedError, "bad root element for torus: ".toList ++ name⟩
      | .records [] => .error ⟨.databaseDoesNotExist, torusDb database⟩
      | .records [sptr] => .ok sptr
      | .records _ => .error ⟨.unspecifiedError, "multiple records for udb=".toList ++ database⟩

def Backend.new (sptr : Searchable) (database : List Char) (args : Args) : Backend where
  resultset := none
  frontendDatabase := database
  sptr := sptr
  enableCproxy := args.nocproxy.isNone && sptr.noCproxy ≠ "1".toList
  proxy := if args.proxy = [] then sptr.cfProxy else args.proxy
  retryOnFailure := args.retry.getD sptr.retryOnFailure

/-- `connect`, and `create_content_session` after it. -/
def Backend.connect (b : Backend) (a : Attempt) : Option Diag :=
  match a.connect with
  | some error => some error
  | none =>
    if b.enableCproxy && b.sptr.contentConnector ≠ [] then a.contentSession else none

/-- A connection for a target, which takes the place of the one there is. -/
def Frontend.newBackend (f : Frontend) (b : Backend) (a : Attempt) (proxyStep : Nat) : Obtained :=
  match b.connect a with
  | some error => .failed { f with backend := none } (some b) error proxyStep
  | none => .connected { f with backend := some (.target b) } b proxyStep

def getBackendFromDatabases (yaz : Yaz) (impl : Impl) (f : Frontend) (database : List Char)
    (query : Query) (a : Attempt) (proxyStep : Nat) : Obtained :=
  match databaseArgs yaz impl f database proxyStep with
  | .error error => .failed f none error proxyStep
  | .ok args =>
    match f.connectionReuse database with
    | some b =>
      match a.connect with
      | some error => .failed f (some b) error args.proxyStep
      | none => .connected f b args.proxyStep
    | none =>
      if torusDb database = "IR-Explain---1".toList then
        explainSearch impl f database query a.explain
      else
        match findSearchable impl args.torusUrl database a.torus with
        | .error error => .failed f none error args.proxyStep
        | .ok sptr =>
          match a.unusable with
          | some error => .failed f none error args.proxyStep
          | none => f.newBackend (.new sptr database args) a args.proxyStep

end Zoom
end Metaproxy
