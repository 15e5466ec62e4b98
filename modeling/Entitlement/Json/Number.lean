import Entitlement.Json.Basic
import Entitlement.Text.Scan

/-!
# Number literals

An integer literal in the range of 64-bit words, signed or unsigned, is an integer;
`-0` and every other literal is a double precision number. That number is formed from
the leading digits that fit 64 bits, converted once, and a power of ten, by which it
is then multiplied or divided: two roundings at most, unless the power is so small
that it takes several divisions. A literal beyond the range denotes nothing.
-/

set_option autoImplicit false

namespace Entitlement.Json

open Text

structure Scaled where
  significand : Nat
  exponent : Int
  deriving DecidableEq, Repr

def takeWhole : Scaled → List Nat → Scaled
  | s, [] => s
  | s, d :: rest =>
    if 10 * s.significand + d < UInt64.size then takeWhole ⟨10 * s.significand + d, s.exponent⟩ rest
    else ⟨s.significand, s.exponent + (rest.length + 1 : Nat)⟩

def takeFraction : Scaled → List Nat → Scaled
  | s, [] => s
  | s, d :: rest =>
    if 10 * s.significand + d < UInt64.size then
      takeFraction ⟨10 * s.significand + d, s.exponent - 1⟩ rest
    else s

def powerOfTen (n : Nat) : Binary64 := Binary64.ofQuotient false (Nat.pow 10 n) 1

/-- The number times a power of ten, `none` beyond the range. Two divisions by the
greatest power bring every 64-bit number to zero. -/
def timesPower : Nat → Binary64 → Int → Option Binary64
  | fuel, x, e =>
    if e.natAbs ≤ 308 then
      if 0 ≤ e then
        let y := x.times (powerOfTen e.natAbs)
        if y.isFinite then some y else none
      else some (x.dividedBy (powerOfTen e.natAbs))
    else if x.isZero then some x
    else if 0 ≤ e then none
    else match fuel with
      | 0 => some (Binary64.zero false)
      | fuel + 1 => timesPower fuel (x.dividedBy (powerOfTen 308)) (e + 308)

def clampExponent (e : Int) : Int := max Int32.minValue.toInt (min Int32.maxValue.toInt e)

structure Literal where
  negative : Bool
  whole : List Nat
  fraction : List Nat
  exponent : Option (Bool × List Nat)
  deriving DecidableEq, Repr

def smallValue? (ds : List Nat) : Option Nat :=
  let n : Nat := ds.foldl (fun n d => 10 * n + d) 0
  if n < 0x80000000 then some n else none

def Literal.magnitude? (l : Literal) : Option Binary64 :=
  let s := takeFraction (takeWhole ⟨0, 0⟩ l.whole) l.fraction
  match l.exponent with
  | none => timesPower 3 (Binary64.ofNat s.significand) s.exponent
  | some (negative, ds) =>
    match smallValue? ds with
    | some e =>
      let e := clampExponent (if negative then s.exponent - e else s.exponent + e)
      timesPower 3 (Binary64.ofNat s.significand) e
    | none =>
      if s.significand ≠ 0 ∧ !negative then none else some (Binary64.zero false)

def Literal.value (l : Literal) : Json :=
  let n : Nat := l.whole.foldl (fun n d => 10 * n + d) 0
  if l.fraction.isEmpty && l.exponent.isNone && n < UInt64.size then
    if !l.negative then .int n
    else if n = 0 ∨ 0x8000000000000000 < n then .float (Binary64.ofNat n).negate
    else .int (-(n : Int))
  else
    match l.magnitude? with
    | some x => .float (if l.negative then x.negate else x)
    | none => .illegible

def scanRun : List Char → List Nat × List Char
  | [] => ([], [])
  | c :: rest =>
    match decimalDigit? c with
    | some d => let (ds, after) := scanRun rest; (d :: ds, after)
    | none => ([], c :: rest)

def scanFractionPart : Scan (List Nat)
  | '.' :: rest =>
    match scanRun rest with
    | ([], _) => none
    | (ds, after) => some (ds, after)
  | cs => some ([], cs)

def scanExponent : Scan (Option (Bool × List Nat))
  | 'e' :: rest | 'E' :: rest =>
    let (negative, rest) := match rest with
      | '+' :: rest => (false, rest)
      | '-' :: rest => (true, rest)
      | rest => (false, rest)
    match scanRun rest with
    | ([], _) => none
    | (ds, after) => some (some (negative, ds), after)
  | cs => some (none, cs)

def scanLiteral : Scan Literal := fun cs => do
  let (negative, cs) := match cs with
    | '-' :: rest => (true, rest)
    | cs => (false, cs)
  let (whole, cs) := scanRun cs
  match whole with
  | [] => none
  | 0 :: _ :: _ => none
  | _ =>
    let (fraction, cs) ← scanFractionPart cs
    let (exponent, cs) ← scanExponent cs
    return (⟨negative, whole, fraction, exponent⟩, cs)

end Entitlement.Json
