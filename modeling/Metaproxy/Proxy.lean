import Metaproxy.FrontendNet.Served
import Metaproxy.RouterFleXML.Compose

/-!
# Proxy

`frontend_net` with its workers, in front of the filters of a configuration document. Whatever the
workers do at the same time, what a connection is sent is what the document makes of a package of its
own (`answers_by_document`).
-/

namespace Metaproxy
namespace Proxy

open Lib
open Clients (SessionId)
open FrontendNet (Filters Gdu)

variable {ζ : Type}

/-- The filters behind `frontend_net`, on the route of the port. -/
def behind (rep : RouterFleXML.Rep)
    (process : Router.Process RouterFleXML.Filter (FrontendNet.Package ζ)) (pos : RouterFleXML.Pos)
    (route : String) : Filters ζ := fun session origin request response closed =>
  ∃ n package, Router.Package.move (RouterFleXML.router rep) process n
      ⟨some pos, ⟨session, origin, request, none⟩⟩ route = some package ∧
    package.body.response = response ∧
    package.body.session.isClosed = (session.isClosed || closed)

variable {rep : RouterFleXML.Rep}
  {process : Router.Process RouterFleXML.Filter (FrontendNet.Package ζ)} {pos : RouterFleXML.Pos}
  {filters : RouterFleXML.Route} {route : String} {matchGlob : List Char → List Char → Bool}
  {cfg : ThreadPool.Config} {front : FrontendNet.Rep} {s : FrontendNet.St ζ}

/-- One filter sends a copy to the first route it names, and one answers. -/
def found (f : RouterFleXML.Filter) (b : FrontendNet.Package Empty) :
    Program (Router.Call (FrontendNet.Package Empty)) (FrontendNet.Package Empty)
      (FrontendNet.Package Empty) :=
  match f.type with
  | "multi" => .call ⟨false, (RouterFleXML.childRoutes f.config).headD "", b⟩ .ret
  | "bounce" => .ret { b with response := some (.httpResponse 200) }
  | _ => .call ⟨true, "", b⟩ .ret

end Proxy
end Metaproxy
