/-!
# Double precision numbers

A number is the 64 bits of the IEEE 754 binary64 format. Everything here is exact
integer arithmetic on the parts the bits denote: a finite number is
`± significand · 2 ^ exponent`. An operation forms the exact rational result and
rounds it once, to nearest with ties to the even significand.
-/

set_option autoImplicit false

namespace Entitlement

structure Binary64 where
  bits : UInt64
  deriving DecidableEq, Repr, Inhabited

namespace Binary64

def signBit : Nat := 0x8000000000000000

def leadingBit : Nat := 0x10000000000000

def isNegative (x : Binary64) : Bool := signBit ≤ x.bits.toNat

def biasedExponent (x : Binary64) : Nat := x.bits.toNat / leadingBit % 2048

def fraction (x : Binary64) : Nat := x.bits.toNat % leadingBit

def isFinite (x : Binary64) : Bool := x.biasedExponent != 2047

def isNaN (x : Binary64) : Bool := x.biasedExponent == 2047 && x.fraction != 0

def isInfinite (x : Binary64) : Bool := x.biasedExponent == 2047 && x.fraction == 0

def significand (x : Binary64) : Nat :=
  if x.biasedExponent = 0 then x.fraction else leadingBit + x.fraction

def exponent (x : Binary64) : Int := (max 1 x.biasedExponent : Nat) - 1075

def isZero (x : Binary64) : Bool := x.isFinite && x.significand == 0

def assemble (negative : Bool) (magnitude : Nat) : Binary64 :=
  ⟨UInt64.ofNat (if negative then signBit + magnitude else magnitude)⟩

def zero (negative : Bool) : Binary64 := assemble negative 0

def infinity (negative : Bool) : Binary64 := assemble negative (2047 * leadingBit)

def scale (numerator denominator : Nat) (e : Int) : Nat × Nat :=
  if 0 ≤ e then (numerator, denominator * Nat.pow 2 e.toNat)
  else (numerator * Nat.pow 2 (-e).toNat, denominator)

def roundQuotient (numerator denominator : Nat) : Nat :=
  let q := numerator / denominator
  let r := numerator % denominator
  if 2 * r < denominator then q
  else if denominator < 2 * r then q + 1
  else q + q % 2

def order (numerator denominator : Nat) : Int :=
  let k : Int := (numerator.log2 : Int) - denominator.log2
  let (n, d) := scale numerator denominator k
  if d ≤ n then k else k - 1

/-- The number nearest to a quotient. The significand is rounded at the exponent of
the quotient's binary order, never below the least exponent; a carry out of the
significand moves into the exponent field by itself. -/
def ofQuotient (negative : Bool) (numerator denominator : Nat) : Binary64 :=
  if numerator = 0 then zero negative
  else
    let e := max (-1074) (order numerator denominator - 52)
    let (n, d) := scale numerator denominator e
    let magnitude := (e + 1074).toNat * leadingBit + roundQuotient n d
    if 2047 * leadingBit ≤ magnitude then infinity negative else assemble negative magnitude

def ofNat (n : Nat) : Binary64 := ofQuotient false n 1

def ofInt (i : Int) : Binary64 := ofQuotient (i < 0) i.natAbs 1

def quotient (x : Binary64) : Nat × Nat := scale x.significand 1 (-x.exponent)

def negate (x : Binary64) : Binary64 :=
  assemble (!x.isNegative) (x.bits.toNat % signBit)

def times (x y : Binary64) : Binary64 :=
  let (n, d) := x.quotient
  let (m, e) := y.quotient
  ofQuotient (x.isNegative != y.isNegative) (n * m) (d * e)

def dividedBy (x y : Binary64) : Binary64 :=
  let (n, d) := x.quotient
  let (m, e) := y.quotient
  ofQuotient (x.isNegative != y.isNegative) (n * e) (d * m)

def isWhole (x : Binary64) : Bool :=
  let (n, d) := x.quotient
  x.isFinite && n % d == 0

def truncate (x : Binary64) : Int :=
  let (n, d) := x.quotient
  if x.isNegative then -(n / d : Nat) else (n / d : Nat)

def key (x : Binary64) : Int :=
  if x.isNegative then -(x.bits.toNat % signBit : Nat) else (x.bits.toNat : Int)

/-- The larger of two numbers. A NaN gives way to the other operand, and of two
equal numbers the second is kept. -/
def maximum (x y : Binary64) : Binary64 :=
  if x.isNaN then y
  else if y.isNaN then x
  else if x.key ≤ y.key then y else x

def equals (x y : Binary64) : Bool := !x.isNaN && !y.isNaN && x.key == y.key

end Binary64

end Entitlement
