import Entitlement.Text.Digits

/-!
# Numerals in settings

An unsigned number is written as decimal digits, after a plus sign or not. The first
character that cannot be taken decides how reading fails.
-/

set_option autoImplicit false

namespace Entitlement.Text

inductive NumeralFault where
  | empty
  | invalidDigit
  | tooLarge
  deriving DecidableEq, Repr

def NumeralFault.message : NumeralFault → String
  | .empty => "cannot parse integer from empty string"
  | .invalidDigit => "invalid digit found in string"
  | .tooLarge => "number too large to fit in target type"

def readDigits (bound : Nat) : Nat → List Char → Except NumeralFault Nat
  | value, [] => .ok value
  | value, c :: rest =>
    match decimalDigit? c with
    | none => .error .invalidDigit
    | some d =>
      if 10 * value + d < bound then readDigits bound (10 * value + d) rest
      else .error .tooLarge

def readUnsigned (bound : Nat) (s : String) : Except NumeralFault Nat :=
  match s.toList with
  | [] => .error .empty
  | ['+'] => .error .invalidDigit
  | '+' :: rest => readDigits bound 0 rest
  | cs => readDigits bound 0 cs

end Entitlement.Text
