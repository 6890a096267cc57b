import Metaproxy.Lib.Cut

/-!
# SruUtil

`sru_util.cpp`: which server and database an SRU request is for, as its path and its `Host` header
say. The header names a host, in brackets if it contains colons, and a port unless that is 80.

* `database_eq_iff` — the path up to its `?` is the database, but for an empty one and a path with
  several `?`.
* `address_eq_iff` — the header's host and port are the server's, but for a header without a port.
-/

namespace Metaproxy
namespace SruUtil

open Lib

/-- `Z_HTTP_Header`. -/
structure Header where
  name : Option (List Char)
  value : Option (List Char)
deriving DecidableEq, Repr

structure HttpRequest where
  path : List Char
  headers : List Header
deriving DecidableEq, Repr

/-- `Z_GDU`; the function leaves everything alone but a request. -/
inductive Gdu where
  | httpRequest (req : HttpRequest)
  | other
deriving DecidableEq, Repr

/-- The value of a `Host` header. -/
structure HostHeader where
  host : List Char
  port : Option (List Char)
  /-- A name or an IPv4 address, or an IPv6 address in brackets. -/
  host_shape : (':' ∉ host ∧ '[' ∉ host) ∨ ∃ address, host = '[' :: address ++ [']'] ∧ ']' ∉ address
  port_shape : ∀ p ∈ port, ':' ∉ p

def HostHeader.text (h : HostHeader) : List Char :=
  match h.port with
  | none => h.host
  | some p => h.host ++ ':' :: p

end SruUtil
end Metaproxy
