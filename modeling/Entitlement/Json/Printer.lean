import Entitlement.Json.Basic
import Entitlement.Number.Shortest

/-!
# Writing JSON

The text of a tree has no blanks between its parts. In a text only the quote, the
backslash and the control characters are escaped.
-/

set_option autoImplicit false

namespace Entitlement.Json

open Text

def layout : Binary64.Layout := ⟨-4, 16, false⟩

def escape (c : Char) : List Char :=
  if c = '"' then ['\\', '"']
  else if c = '\\' then ['\\', '\\']
  else if c = '\x08' then ['\\', 'b']
  else if c = '\x0c' then ['\\', 'f']
  else if c = '\n' then ['\\', 'n']
  else if c = '\r' then ['\\', 'r']
  else if c = '\t' then ['\\', 't']
  else if c.toNat < 0x20 then '\\' :: 'u' :: fixedDigits 16 4 c.toNat
  else [c]

def printText (s : String) : List Char := '"' :: s.toList.flatMap escape ++ ['"']

mutual

def print : Json → List Char
  | .null => ['n', 'u', 'l', 'l']
  | .bool true => ['t', 'r', 'u', 'e']
  | .bool false => ['f', 'a', 'l', 's', 'e']
  | .int i => signedDecimal i
  | .float x => layout.text x
  | .text s => printText s
  | .array items => '[' :: printItems items
  | .object members => '\x7b' :: printMembers members
  | .illegible => []
  | .nameless => []
  | .broken => []

def printItems : List Json → List Char
  | [] => [']']
  | [v] => print v ++ [']']
  | v :: rest => print v ++ ',' :: printItems rest

def printMembers : List (String × Json) → List Char
  | [] => ['\x7d']
  | [(name, v)] => printText name ++ ':' :: print v ++ ['\x7d']
  | (name, v) :: rest => printText name ++ ':' :: print v ++ ',' :: printMembers rest

end

def toText (j : Json) : String := String.ofList j.print

end Entitlement.Json
