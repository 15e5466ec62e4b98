import Entitlement.Text.Digits
import Entitlement.Text.Unmarked

/-!
# Escaped text

A text written so that it can be told apart from any other by its looks: what shows
nothing by itself is written as a number, and the characters that could be mistaken for
an escape or for the end of the text come after a backslash.
-/

set_option autoImplicit false

namespace Entitlement.Text

def escapedNumber (c : Char) : List Char :=
  ['\\', 'u', '\x7b'] ++ (fixedDigits 16 6 c.toNat).dropWhile (· == '0') ++ ['\x7d']

def escapedChar (c : Char) : List Char :=
  if c = '\x00' then ['\\', '0']
  else if c = '\t' then ['\\', 't']
  else if c = '\n' then ['\\', 'n']
  else if c = '\r' then ['\\', 'r']
  else if c = '"' ∨ c = '\\' then ['\\', c]
  else if isUnmarked c then escapedNumber c
  else [c]

def escaped (s : String) : String := String.ofList (s.toList.flatMap escapedChar)

end Entitlement.Text
