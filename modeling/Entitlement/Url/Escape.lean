import Entitlement.Text.Digits
import Entitlement.Text.Split

/-!
# Escapes in addresses

In an address a percent sign with two hexadecimal digits stands for a byte. The bytes
of a part make up its text, if they are the UTF-8 form of one. In a query a plus sign
stands for a space, and a name may be given a value.
-/

set_option autoImplicit false

namespace Entitlement.Url

open Text

def bytes : List Char → List UInt8
  | [] => []
  | '%' :: a :: b :: rest =>
    match hexValue? [a, b] with
    | some n => UInt8.ofNat n :: bytes rest
    | none => String.utf8EncodeChar '%' ++ bytes (a :: b :: rest)
  | c :: rest => String.utf8EncodeChar c ++ bytes rest

def unescape (cs : List Char) : Option String := String.fromUTF8? ⟨(bytes cs).toArray⟩

def unescapeQuery (cs : List Char) : Option String :=
  unescape (cs.map fun c => if c = '+' then ' ' else c)

def parameters (query : List Char) : List (Option String × Option String) :=
  ((split '&' query).filter fun part => !part.isEmpty).map fun part =>
    let (name, value) := cut '=' part
    (unescapeQuery name, unescapeQuery (value.getD []))

def parameter? (query : List Char) (name : String) : Option (Option String) :=
  (parameters query).reverse.lookup (some name)

end Entitlement.Url
