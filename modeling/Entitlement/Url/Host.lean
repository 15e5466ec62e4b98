import Entitlement.Text.Digits
import Entitlement.Text.Split

/-!
# Hosts

A host is a name, which is not looked into, or an IPv6 address in brackets. The address
has eight pieces of 16 bits; a run of zeros may be left out once, and the last two
pieces may be written as four bytes in decimal.
-/

set_option autoImplicit false

namespace Entitlement

open Text

inductive Host where
  | named (name : List Char)
  | ipv6 (pieces : List Nat)
  deriving DecidableEq, Repr

namespace Host

def piece? (cs : List Char) : Option Nat :=
  if cs.isEmpty ∨ 4 < cs.length then none else hexValue? cs

def byte? (cs : List Char) : Option Nat :=
  match cs with
  | [] => none
  | '0' :: _ :: _ => none
  | _ => (decimalValue? cs).filter fun n => n < UInt8.size

def bytePieces? (cs : List Char) : Option (List Nat) := do
  match ← (split '.' cs).mapM byte? with
  | [a, b, c, d] => some [256 * a + b, 256 * c + d]
  | _ => none

def pieces? (bytesLast : Bool) : List (List Char) → Option (List Nat)
  | [] => some []
  | [part] =>
    if bytesLast ∧ '.' ∈ part then bytePieces? part else (piece? part).map fun n => [n]
  | part :: rest => do return (← piece? part) :: (← pieces? bytesLast rest)

def side? (bytesLast : Bool) (cs : List Char) : Option (List Nat) :=
  if cs.isEmpty then some [] else pieces? bytesLast (split ':' cs)

def omission? : List Char → Option (List Char × List Char)
  | ':' :: ':' :: rest => some ([], rest)
  | c :: rest => (omission? rest).map fun (before, after) => (c :: before, after)
  | [] => none

def ipv6? (cs : List Char) : Option (List Nat) :=
  match omission? cs with
  | some (before, after) => do
    let left ← side? false before
    let right ← side? true after
    if left.length + right.length < 8 then
      some (left ++ List.replicate (8 - left.length - right.length) 0 ++ right)
    else none
  | none => (side? true cs).filter fun pieces => pieces.length = 8

def isForbidden (c : Char) : Bool := "\x00\t\n\r #/:<>?@[\\]^|".toList.contains c

def ofChars? (cs : List Char) : Option Host :=
  match cs with
  | '[' :: inner =>
    if inner.getLast? = some ']' then (ipv6? inner.dropLast).map .ipv6 else none
  | _ => if cs.any isForbidden then none else some (.named cs)

def isUnspecified : Host → Bool
  | .named name => name == "0.0.0.0".toList
  | .ipv6 pieces => pieces.all (· == 0)

theorem length_of_ipv6? {cs : List Char} {pieces : List Nat} (h : ipv6? cs = some pieces) :
    pieces.length = 8 := by
  unfold ipv6? at h
  split at h
  · simp only [Option.bind_eq_bind, Option.bind_eq_some_iff] at h
    obtain ⟨left, _, right, _, h⟩ := h
    split at h
    · cases h
      simp only [List.length_append, List.length_replicate]
      omega
    · cases h
  · simpa using (Option.filter_eq_some_iff.1 h).2

end Host

end Entitlement
