import Entitlement.Url.Host
import Entitlement.Url.Path

/-!
# Addresses of services

An address has a scheme and, after it, either an authority (credentials, a host and a
port) with a path, a path alone, or a text that is neither. A query may follow; what
stands after a number sign is of no account.
-/

set_option autoImplicit false

namespace Entitlement

open Text

structure Url where
  scheme : String
  user : List Char
  password : Option (List Char)
  host : Option Host
  port : Option Nat
  path : Option (List (List Char))
  query : List Char
  deriving DecidableEq, Repr

namespace Url

def isSchemeChar (c : Char) : Bool := c.isAlphanum || c == '+' || c == '-' || c == '.'

def splitScheme? (cs : List Char) : Option (String × List Char) :=
  match cut ':' cs with
  | (scheme, some rest) =>
    if (scheme.head?.any Char.isAlpha) && scheme.all isSchemeChar then
      some (String.ofList (scheme.map Char.toLower), rest)
    else none
  | (_, none) => none

def cleaned (cs : List Char) : List Char :=
  let isOuter (c : Char) : Bool := c.toNat ≤ 0x20
  ((cs.dropWhile isOuter).reverse.dropWhile isOuter).reverse.filter fun c =>
    !(c == '\t' || c == '\n' || c == '\r')

def bare (scheme : String) (path : Option (List (List Char))) (query : List Char) : Url :=
  ⟨scheme, [], none, none, none, path, query⟩

def pathAndQuery (cs : List Char) : Option (List (List Char)) × List Char :=
  let path := cs.takeWhile fun c => c != '?' && c != '#'
  let query := match cs.drop path.length with
    | '?' :: rest => rest.takeWhile (· != '#')
    | _ => []
  (match path with
    | [] => none
    | '/' :: rest => some (segments rest)
    | _ => some (segments path), query)

def credentials (cs : List Char) : List Char × Option (List Char) :=
  let (user, password) := cut ':' cs
  (user, password.filter fun p => !p.isEmpty)

def spanHost : Bool → List Char → List Char × List Char
  | _, [] => ([], [])
  | bracketed, c :: rest =>
    if c = ':' ∧ !bracketed then ([], c :: rest)
    else
      let bracketed := c = '[' ∨ (c ≠ ']' ∧ bracketed)
      let (host, after) := spanHost bracketed rest
      (c :: host, after)

def port? : List Char → Option (Option Nat × List Char)
  | ':' :: rest =>
    let digits := rest.takeWhile fun c => (decimalDigit? c).isSome
    match decimalValue? digits with
    | some n =>
      if UInt16.size ≤ n then none
      else some (if digits.isEmpty then none else some n, rest.drop digits.length)
    | none => none
  | rest => some (none, rest)

/-- Reads what follows the two slashes before an authority. The authority ends where a
path, a query or a fragment begins; only a backslash may stand between a port and that
end, and then belongs to the path. Credentials and a port need a host. -/
def ofAuthority? (scheme : String) (cs : List Char) : Option Url := do
  let authority := cs.takeWhile fun c => c != '/' && c != '?' && c != '#'
  let after := cs.drop authority.length
  let (before, place) := cutLast '@' authority
  if before = some [] ∧ place.isEmpty ∧ !after.isEmpty then none
  let (user, password) := credentials (before.getD [])
  let (hostText, portText) := spanHost false place
  let hasCredentials := !user.isEmpty || password.isSome
  if hostText.isEmpty ∧ (hasCredentials ∨ !portText.isEmpty) then none
  let host ← if hostText.isEmpty then some none else some <$> Host.ofChars? hostText
  let (port, rest) ← port? portText
  if rest.head?.all (· == '\\') then
    let (path, query) := pathAndQuery (rest ++ after)
    some ⟨scheme, user, password, host, port, path, query⟩
  else none

def ofText? (s : String) : Option Url := do
  let (scheme, rest) ← splitScheme? (cleaned s.toList)
  match rest with
  | '/' :: '/' :: rest => ofAuthority? scheme rest
  | '/' :: _ =>
    let (path, query) := pathAndQuery rest
    some (bare scheme path query)
  | _ => some (bare scheme none (pathAndQuery rest).2)

end Url

end Entitlement
