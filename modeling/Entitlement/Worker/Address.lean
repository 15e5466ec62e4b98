import Entitlement.Url.Basic
import Entitlement.Url.Escape

/-!
# Addresses of a broker

A broker is reached at a host, by its name or address, with a database number as the
path; or at a socket, by the path of a file on this machine. An address says so
plainly, in UTF-8, or it is not valid. Whether anything answers there is another matter.
-/

set_option autoImplicit false

namespace Entitlement.Worker.Address

open Text

def hostSchemes : List String := ["redis", "valkey"]

def socketSchemes : List String := ["unix", "redis+unix", "valkey+unix"]

def isDatabase (cs : List Char) : Bool :=
  match integer? cs with
  | some i => Int64.minValue.toInt ≤ i && i ≤ Int64.maxValue.toInt
  | none => false

def protocols : List String := ["2", "resp2", "3", "resp3"]

def permits (query : List Char) (name : String) (passes : String → Bool) : Bool :=
  match Url.parameter? query name with
  | none => true
  | some value => value.any passes

def namesHost (url : Url) : Bool :=
  (Url.unescape url.user).isSome &&
    url.password.all (fun p => (Url.unescape p).isSome) &&
    url.host.any (fun host => !host.isUnspecified) &&
    match (url.path.getD []).filter fun segment => !segment.isEmpty with
    | [] => true
    | [segment] => isDatabase segment
    | _ => false

def namesSocket (url : Url) : Bool :=
  url.host.all (· == .named "localhost".toList) && url.path.isSome &&
    permits url.query "db" fun s => isDatabase s.toList

def isValid (s : String) : Bool :=
  match Url.ofText? s with
  | some url =>
    permits url.query "protocol" (protocols.contains ·) &&
      ((url.scheme ∈ hostSchemes && namesHost url) ||
        (url.scheme ∈ socketSchemes && namesSocket url))
  | none => false

end Entitlement.Worker.Address
