import Entitlement.Text.Blank
import Entitlement.Text.Digits

/-!
# Scanning

Small readers that take a value off the front of a text and give back the rest.
-/

set_option autoImplicit false

namespace Entitlement.Text

abbrev Scan (α : Type) := List Char → Option (α × List Char)

def scanDigits : Nat → Nat → List Char → Nat × List Char
  | most + 1, value, c :: rest =>
    match decimalDigit? c with
    | some d => scanDigits most (10 * value + d) rest
    | none => (value, c :: rest)
  | _, value, rest => (value, rest)

def scanNumber (most : Nat) : Scan Nat
  | c :: rest => do
    let d ← decimalDigit? c
    return scanDigits (most - 1) d rest
  | [] => none

def scanChar (expected : Char) : Scan Unit
  | c :: rest => if c = expected then some ((), rest) else none
  | [] => none

def scanEnd (cs : List Char) : Option Unit :=
  if (skipBlanks cs).isEmpty then some () else none

end Entitlement.Text
