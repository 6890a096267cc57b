import Metaproxy.HTMLParser
import Metaproxy.HttpRewrite.Rule

/-!
# HttpRewrite.Phase

What `filter_http_rewrite.cpp` does with a request and its response: the request line, the headers
and the body are rewritten, the latter by `Event` when it is HTML.

The parser does not depend on what its handler does, so the events of a document are gone over when
they are all there.
-/

namespace Metaproxy
namespace HttpRewrite

open Lib
open HTMLParser (Event)

structure Header where
  name : List Char
  value : List Char
deriving DecidableEq, Repr

structure HttpRequest where
  path : List Char
  headers : List Header
  contentBuf : List Char
deriving DecidableEq, Repr

structure HttpResponse where
  headers : List Header
  contentBuf : List Char
deriving DecidableEq, Repr

/-- A request or a response; `other` is what the filter leaves alone. -/
inductive Gdu where
  | httpRequest (hreq : HttpRequest)
  | httpResponse (hres : HttpResponse)
  | other
deriving DecidableEq, Repr

inductive ContentType where
  | headers
  | html
  | quotedLiteral
  | other (type : String)
deriving DecidableEq, Repr

structure Content (ρ : Type) where
  type : ContentType
  contentRe : ρ
  withinList : List (Within ρ)

structure Phase (ρ : Type) where
  contentList : List (Content ρ)

/-- `HttpRewrite`. -/
structure Phases (ρ : Type) where
  reqPhase : Phase ρ
  resPhase : Phase ρ

/-! ## Headers -/

/-- As `yaz_strcasecmp` has it. -/
def sameName (a : List Char) (b : String) : Bool :=
  a.map Char.toLower = b.toList.map Char.toLower

/-- `z_HTTP_header_lookup`. -/
def headerLookup (headers : List Header) (name : String) : Option (List Char) :=
  (headers.find? fun h => sameName h.name name).map Header.value

variable {ρ : Type}

def Phase.headersContent (phase : Phase ρ) : Option (Content ρ) :=
  phase.contentList.find? fun c => c.type = .headers

variable (boost : Boost ρ)

/-! ## HTML -/

structure EventState (ρ : Type) where
  w : List Char
  within : List (Within ρ)
  vars : Vars

def EventState.write (s : EventState ρ) (text : List Char) : EventState ρ :=
  { s with w := s.w ++ text }

/-- The end of an element whose text is rewritten. -/
def EventState.pop (s : EventState ρ) (tag : List Char) : EventState ρ :=
  match s.within with
  | [] => s
  | it :: within =>
    if it.tag.any fun re => boost.regexMatch re tag then { s with within := within } else s

def Content.textWithin (c : Content ρ) (tag : List Char) : Option (Within ρ) :=
  c.withinList.find? fun it =>
    (it.tag.any fun re => boost.regexMatch re tag) &&
      it.attr.any fun re => boost.regexMatch re "#text".toList

def Content.attrWithin (c : Content ρ) (tag attr : List Char) : Option (Within ρ) :=
  c.withinList.find? fun it =>
    (it.tag.all fun re => boost.regexMatch re tag) &&
      it.attr.any fun re => boost.regexMatch re attr

def Content.event (c : Content ρ) (env : Env ρ) (s : EventState ρ) :
    Event → Serving ρ (EventState ρ)
  | .openTagStart tag =>
    pure { s.write ('<' :: tag) with within := (c.textWithin boost tag).toList ++ s.within }
  | .anyTagEnd tag closeIt =>
    pure (if closeIt then (s.pop boost tag).write ['/', '>'] else s.write ['>'])
  | .attribute _ attr none => pure (s.write (' ' :: attr))
  | .attribute tag attr (some v) =>
    let s := s.write (' ' :: attr ++ '=' :: v.tr.toList)
    match c.attrWithin boost tag attr with
    | none => pure (s.write (v.value ++ v.tr.toList))
    | some it =>
      it.exec boost env s.vars v.value true >>= fun r =>
        pure ({ s with vars := r.vars }.write (cString r.txt ++ v.tr.toList))
  | .closeTag tag => pure ((s.pop boost tag).write ('<' :: '/' :: tag))
  | .text value =>
    match s.within with
    | [] => pure (s.write value)
    | it :: _ =>
      it.exec boost env s.vars value false >>= fun r =>
        pure ({ s with vars := r.vars }.write (cString r.txt))

def Content.html (c : Content ρ) (env : Env ρ) (content : List Char) (vars : Vars) :
    Serving ρ (List Char × Vars) :=
  (HTMLParser.parse (cString content)).foldlM (c.event boost env) ⟨[], [], vars⟩ >>= fun s =>
    pure (cString s.w, s.vars)

def Content.quotedLiteral (c : Content ρ) (env : Env ρ) (content : List Char) (vars : Vars) :
    Serving ρ (List Char × Vars) :=
  match c.withinList with
  | [] => pure (content, vars)
  | it :: _ =>
    embedQuotedLiteral boost env content vars it.rule false >>= fun r => pure (r.txt, r.vars)

def Content.parse (c : Content ρ) (env : Env ρ) (content : List Char) (vars : Vars) :
    Serving ρ (List Char × Vars) :=
  match c.type with
  | .html => c.html boost env content vars
  | .quotedLiteral => c.quotedLiteral boost env content vars
  | _ => pure (content, vars)

/-! ## `Phase` -/

/-- Of the address that the request came in at. -/
def proto (bindAddr : List Char) : List Char :=
  if "ssl:".toList.isPrefixOf bindAddr then "https".toList else "http".toList

def isAbsolute (path : List Char) : Bool :=
  "http://".toList.isPrefixOf path || "https://".toList.isPrefixOf path

def absoluteUrl (hreq : HttpRequest) (bindAddr host : List Char) : List Char :=
  proto bindAddr ++ "://".toList ++ host ++ hreq.path

/-- The URL that the pages of skip links are looked up in. -/
def skipUrl (hreq : HttpRequest) (bindAddr : List Char) : List Char :=
  if isAbsolute hreq.path then hreq.path
  else ((headerLookup hreq.headers "Host").map (absoluteUrl hreq bindAddr)).getD hreq.path

/-- The page and the link of a skip link. -/
def splitSkipLink (hv : List Char) : Option (List Char × List Char) :=
  match hv.dropWhile (· ≠ ' ') with
  | [] => none
  | _ :: link => some (hv.takeWhile (· ≠ ' '), link)

def readSkipLink (url hv : List Char) (skips : List ρ) : Except Stop (List ρ) :=
  match splitSkipLink hv with
  | none => .ok skips
  | some (page, link) =>
    match boost.compile false page with
    | none => .error (.thrown (.regexError page))
    | some pagere =>
      if (boost.regexSearch pagere url).isSome then
        match boost.compile false link with
        | none => .error (.thrown (.regexError link))
        | some linkre => .ok (skips ++ [linkre])
      else .ok skips

def isSkipLink (h : Header) : Bool := sameName h.name "X-Metaproxy-SkipLink"

/-- The headers are removed. -/
def readSkipHeaders (hreq : HttpRequest) (bindAddr : List Char) :
    Serving ρ (HttpRequest × List ρ) :=
  let url := skipUrl hreq bindAddr
  (hreq.headers.filter isSkipLink).foldlM (fun skips h =>
      Traced.step (.skipLink url h.value) (readSkipLink boost url h.value skips)) [] >>= fun skips =>
    pure ({ hreq with headers := hreq.headers.filter fun h => !isSkipLink h }, skips)

/-- The URL of the request line; without a host there is none. -/
def reqlineUrl (hreq : HttpRequest) (bindAddr : List Char) : Option (List Char) :=
  if isAbsolute hreq.path then some hreq.path
  else (headerLookup hreq.headers "Host").map (absoluteUrl hreq bindAddr)

structure Reqline where
  path : List Char
  hreq : HttpRequest
  vars : Vars

def Phase.rewriteReqline (phase : Phase ρ) (fuel : Nat) (hreq : HttpRequest) (vars : Vars)
    (bindAddr : List Char) : Serving ρ (HttpRequest × Vars) :=
  match reqlineUrl hreq bindAddr, phase.headersContent with
  | some path, some c =>
    (c.withinList.filter Within.reqline).foldlM (fun (s : Reqline) it =>
        it.exec boost ⟨fuel, []⟩ s.vars s.path true >>= fun r =>
          pure ⟨r.txt, if r.replaces then { s.hreq with path := cString r.txt } else s.hreq, r.vars⟩)
        ⟨path, hreq, vars⟩ >>= fun s =>
      pure (s.hreq, s.vars)
  | _, _ => pure (hreq, vars)

def Content.rewriteHeader (c : Content ρ) (fuel : Nat) (header : Header) (vars : Vars) :
    Serving ρ (Header × Vars) :=
  (c.withinList.filter fun it => it.header.any fun re => boost.regexMatch re header.name).foldlM
    (fun (s : Header × Vars) it =>
      it.exec boost ⟨fuel, []⟩ s.2 s.1.value true >>= fun r =>
        pure (if r.replaces then { s.1 with value := cString r.txt } else s.1, r.vars))
    (header, vars)

def Phase.rewriteHeaders (phase : Phase ρ) (fuel : Nat) (headers : List Header) (vars : Vars) :
    Serving ρ (List Header × Vars) :=
  match phase.headersContent with
  | none => pure (headers, vars)
  | some c =>
    headers.foldlM (fun (s : List Header × Vars) header =>
      c.rewriteHeader boost fuel header s.2 >>= fun r => pure (s.1 ++ [r.1], r.2)) ([], vars)

def Phase.rewriteBody (phase : Phase ρ) (env : Env ρ) (contentType : Option (List Char))
    (content : List Char) (vars : Vars) : Serving ρ (List Char × Vars) :=
  match contentType with
  | none => pure (content, vars)
  | some contentType =>
    match phase.contentList.find? fun c =>
        c.type ≠ .headers && boost.regexMatch c.contentRe contentType with
    | none => pure (content, vars)
    | some c =>
      if content = [] ∨ '\x00' ∈ content then pure (content, vars)
      else c.parse boost env content vars >>= fun r => pure (cString r.1, r.2)

/-! ## `process` -/

structure Processed (ρ : Type) where
  hreq : HttpRequest
  skips : List ρ
  vars : Vars

def Phases.processRequest (phases : Phases ρ) (fuel : Nat) (bindAddr : List Char)
    (hreq : HttpRequest) : Serving ρ (Processed ρ) :=
  phases.reqPhase.rewriteReqline boost fuel hreq ∅ bindAddr >>= fun (hreq, vars) =>
  readSkipHeaders boost hreq bindAddr >>= fun (hreq, skips) =>
  phases.reqPhase.rewriteHeaders boost fuel hreq.headers vars >>= fun (headers, vars) =>
  phases.reqPhase.rewriteBody boost ⟨fuel, skips⟩ (headerLookup headers "Content-Type")
    hreq.contentBuf vars >>= fun (contentBuf, vars) =>
  pure ⟨⟨hreq.path, headers, contentBuf⟩, skips, vars⟩

def Phases.processResponse (phases : Phases ρ) (env : Env ρ) (vars : Vars) (hres : HttpResponse) :
    Serving ρ HttpResponse :=
  phases.resPhase.rewriteHeaders boost env.fuel hres.headers vars >>= fun (headers, vars) =>
  phases.resPhase.rewriteBody boost env (headerLookup headers "Content-Type")
    hres.contentBuf vars >>= fun (contentBuf, _) =>
  pure ⟨headers, contentBuf⟩

/-- `process`; `move` is what comes back for the request that is sent on. -/
def Phases.process (phases : Phases ρ) (fuel : Nat) (bindAddr : List Char) (request : Gdu)
    (move : Gdu → Gdu) : Serving ρ (Gdu × Gdu) :=
  (match request with
    | .httpRequest hreq =>
      phases.processRequest boost fuel bindAddr hreq >>= fun p =>
        pure (.httpRequest p.hreq, p.skips, p.vars)
    | gdu => pure (gdu, [], ∅)) >>= fun (request, skips, vars) =>
  match move request with
  | .httpResponse hres =>
    phases.processResponse boost ⟨fuel, skips⟩ vars hres >>= fun hres =>
      pure (request, .httpResponse hres)
  | gdu => pure (request, gdu)

end HttpRewrite
end Metaproxy
