import Entitlement.Number.Binary64
import Entitlement.Text.Digits

/-!
# Shortest decimals

The decimal text of a number has the fewest digits that still read back as that
number, and of those the ones nearest to it. For each count of digits only the two
neighbours of the number on that decimal grid are tried: when any point of the grid
rounds to the number, one of these two does.
-/

set_option autoImplicit false

namespace Entitlement

open Text

structure Decimal where
  digits : Nat
  exponent : Int
  deriving DecidableEq, Repr

namespace Decimal

def trimmed : Nat → Decimal → Decimal
  | 0, d => d
  | fuel + 1, d =>
    if d.digits % 10 = 0 ∧ d.digits ≠ 0 then trimmed fuel ⟨d.digits / 10, d.exponent + 1⟩ else d

def order (d : Decimal) : Int := (decimal d.digits).length + d.exponent

end Decimal

namespace Binary64

def decimalOrder (n d : Nat) : Int :=
  if d ≤ n then (decimal (n / d)).length
  else 1 - ((decimal ((d + n - 1) / n - 1)).length : Int)

def inUnits (n d : Nat) (e : Int) : Nat × Nat :=
  if 0 ≤ e then (n, d * Nat.pow 10 e.toNat) else (n * Nat.pow 10 (-e).toNat, d)

/-- The interval of the reals that round to a number, in quarters of the unit of its
significand: below a power of two the gap is half as wide. -/
def lowerQuarters (x : Binary64) : Nat :=
  if x.fraction = 0 ∧ 1 < x.biasedExponent then 4 * x.significand - 1 else 4 * x.significand - 2

def upperQuarters (x : Binary64) : Nat := 4 * x.significand + 2

def readsBack (x : Binary64) (c : Nat) (e : Int) : Bool :=
  let (u, v) := scale 1 1 (2 - x.exponent)
  let (n, d) := if 0 ≤ e then (c * Nat.pow 10 e.toNat, 1) else (c, Nat.pow 10 (-e).toNat)
  let lower := x.lowerQuarters * u * d
  let upper := x.upperQuarters * u * d
  if x.significand % 2 = 0 then lower ≤ n * v && n * v ≤ upper
  else lower < n * v && n * v < upper

def onGrid? (x : Binary64) (tieUp : Bool) (e : Int) : Option Decimal :=
  let (n, d) := x.quotient
  let (n, d) := inUnits n d e
  let below := n / d
  let twice := 2 * (n % d)
  let preferUp := d < twice || (twice == d && (tieUp || below % 2 == 1))
  match readsBack x below e && below != 0, readsBack x (below + 1) e with
  | true, true => some ⟨if preferUp then below + 1 else below, e⟩
  | true, false => some ⟨below, e⟩
  | false, true => some ⟨below + 1, e⟩
  | false, false => none

/-- The shortest decimal of a finite number other than zero, without its sign.
Seventeen digits always suffice. -/
def shortest (x : Binary64) (tieUp : Bool) : Decimal :=
  let (n, d) := x.quotient
  let p := decimalOrder n d
  match (List.range 17).findSome? fun k => onGrid? x tieUp (p - 1 - (k : Nat)) with
  | some found => found.trimmed 17
  | none => ⟨n / d, 0⟩

structure Layout where
  leastOrder : Int
  greatestOrder : Int
  tieUp : Bool

def positional (digits : List Char) (order : Int) : List Char :=
  if order ≤ 0 then '0' :: '.' :: (List.replicate (-order).toNat '0' ++ digits)
  else if digits.length ≤ order.toNat then
    digits ++ List.replicate (order.toNat - digits.length) '0' ++ ['.', '0']
  else digits.take order.toNat ++ '.' :: digits.drop order.toNat

def scientific (digits : List Char) (order : Int) : List Char :=
  let mantissa := match digits with
    | first :: second :: rest => first :: '.' :: second :: rest
    | few => few
  mantissa ++ 'e' :: signedDecimal (order - 1)

def Layout.magnitude (l : Layout) (x : Binary64) : List Char :=
  if x.isNaN then ['N', 'a', 'N']
  else if x.isInfinite then ['i', 'n', 'f']
  else if x.isZero then ['0', '.', '0']
  else
    let s := x.shortest l.tieUp
    if l.leastOrder ≤ s.order ∧ s.order ≤ l.greatestOrder then positional (decimal s.digits) s.order
    else scientific (decimal s.digits) s.order

def Layout.text (l : Layout) (x : Binary64) : List Char :=
  if x.isNegative && !x.isNaN then '-' :: l.magnitude x else l.magnitude x

end Binary64

end Entitlement
