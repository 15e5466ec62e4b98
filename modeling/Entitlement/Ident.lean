import Entitlement.Text.Scan

/-!
# Identifiers

Roles, users and assignments are named by 128-bit identifiers, written as 32
hexadecimal digits in groups of 8, 4, 4, 4 and 12. The three kinds are distinct
types, so that one is never taken for another.
-/

set_option autoImplicit false

namespace Entitlement

open Text

abbrev Uuid.count : Nat := 0x100000000000000000000000000000000

structure Uuid where
  value : Fin Uuid.count
  deriving DecidableEq, Repr

namespace Uuid

instance : LE Uuid := ⟨fun a b => a.value ≤ b.value⟩
instance : LT Uuid := ⟨fun a b => a.value < b.value⟩
instance (a b : Uuid) : Decidable (a ≤ b) := inferInstanceAs (Decidable (a.value ≤ b.value))
instance (a b : Uuid) : Decidable (a < b) := inferInstanceAs (Decidable (a.value < b.value))

def ofNat (n : Nat) : Uuid := ⟨Fin.ofNat count n⟩

def generated (n : Nat) : Uuid :=
  ofNat (0x40008000000000000000 + n % 0x1000000000000)

def toChars (u : Uuid) : List Char :=
  let ds := fixedDigits 16 32 u.value
  ds.take 8 ++ '-' :: (ds.drop 8).take 4 ++ '-' :: (ds.drop 12).take 4 ++
    '-' :: (ds.drop 16).take 4 ++ '-' :: ds.drop 20

def toText (u : Uuid) : String := String.ofList u.toChars

def ofDigits? (cs : List Char) : Option Uuid :=
  if cs.length = 32 then (hexValue? cs).map ofNat else none

def ofGroups? (cs : List Char) : Option Uuid := do
  if cs.length ≠ 36 then none
  let (a, cs) := cs.splitAt 8
  let (_, cs) ← scanChar '-' cs
  let (b, cs) := cs.splitAt 4
  let (_, cs) ← scanChar '-' cs
  let (c, cs) := cs.splitAt 4
  let (_, cs) ← scanChar '-' cs
  let (d, cs) := cs.splitAt 4
  let (_, cs) ← scanChar '-' cs
  ofDigits? (a ++ b ++ c ++ d ++ cs)

/-- An identifier is read in groups, in one run, in groups within braces, or in groups
after `urn:uuid:`, its digits in either case. -/
def ofChars? (cs : List Char) : Option Uuid :=
  if cs.length = 32 then ofDigits? cs
  else if cs.length = 38 ∧ cs.head? = some '\x7b' ∧ cs.getLast? = some '\x7d' then
    ofGroups? (cs.drop 1).dropLast
  else if cs.length = 45 ∧ cs.take 9 = "urn:uuid:".toList then ofGroups? (cs.drop 9)
  else ofGroups? cs

def ofText? (s : String) : Option Uuid := ofChars? s.toList

end Uuid

structure RoleId where
  uuid : Uuid
  deriving DecidableEq, Repr

structure UserId where
  uuid : Uuid
  deriving DecidableEq, Repr

structure AssignmentId where
  uuid : Uuid
  deriving DecidableEq, Repr

def RoleId.toText (i : RoleId) : String := i.uuid.toText

def UserId.toText (i : UserId) : String := i.uuid.toText

def AssignmentId.toText (i : AssignmentId) : String := i.uuid.toText

end Entitlement
