import Entitlement.Time.Date

/-!
# Instants

An instant is a second, counted from the start of 1 January 1970, UTC, and the
nanoseconds since its beginning. A leap second has no number of its own: it prolongs the
last second of a minute, whose nanoseconds then go beyond a billion. Instants are read
from a date, a time of day and an offset, and written in UTC with as many groups of
three fraction digits as lose nothing.
-/

set_option autoImplicit false

namespace Entitlement

open Text

structure Instant where
  second : Int
  nanos : Nat
  deriving DecidableEq, Repr, Inhabited

namespace Instant

instance : LE Instant :=
  ⟨fun a b => a.second < b.second ∨ (a.second = b.second ∧ a.nanos ≤ b.nanos)⟩

instance : LT Instant :=
  ⟨fun a b => a.second < b.second ∨ (a.second = b.second ∧ a.nanos < b.nanos)⟩

instance (a b : Instant) : Decidable (a ≤ b) :=
  inferInstanceAs (Decidable (a.second < b.second ∨ (a.second = b.second ∧ a.nanos ≤ b.nanos)))

instance (a b : Instant) : Decidable (a < b) :=
  inferInstanceAs (Decidable (a.second < b.second ∨ (a.second = b.second ∧ a.nanos < b.nanos)))

instance : Max Instant := ⟨fun a b => if a ≤ b then b else a⟩

def nanosPerSecond : Nat := 1000000000

def secondsPerDay : Int := 86400

def ofNanos (n : Int) : Instant :=
  ⟨n / (nanosPerSecond : Int), (n % (nanosPerSecond : Int)).toNat⟩

def toNanos (t : Instant) : Int := t.second * nanosPerSecond + t.nanos

def onClock (t : Instant) : Instant := ofNanos t.toNanos

def date (t : Instant) : Date := ⟨t.second / secondsPerDay⟩

def ofDay (t : Instant) : Int := t.second % secondsPerDay

def isLeap (t : Instant) : Bool := nanosPerSecond ≤ t.nanos

def addMillis (t : Instant) (n : Int) : Instant := ofNanos (t.toNanos + n * 1000000)

/-- Nanoseconds from an instant to another. A leap second at the earlier time of day
has yet to pass and counts; one at the same time of day does not. -/
def nanosUntil (since now : Instant) : Int :=
  let leap : Int :=
    if since.ofDay < now.ofDay ∧ since.isLeap then 1
    else if now.ofDay < since.ofDay ∧ now.isLeap then -1
    else 0
  now.toNanos - since.toNanos + leap * nanosPerSecond

def fractionText (n : Nat) : List Char :=
  if n = 0 then []
  else if n % 1000000 = 0 then '.' :: fixedDigits 10 3 (n / 1000000)
  else if n % 1000 = 0 then '.' :: fixedDigits 10 6 (n / 1000)
  else '.' :: fixedDigits 10 9 n

def toChars (t : Instant) : List Char :=
  let ofDay := t.ofDay.toNat
  let (leap, fraction) := if t.isLeap then (1, t.nanos - nanosPerSecond) else (0, t.nanos)
  t.date.toChars ++ 'T' :: fixedDigits 10 2 (ofDay / 3600) ++
    ':' :: fixedDigits 10 2 (ofDay / 60 % 60) ++
    ':' :: fixedDigits 10 2 (ofDay % 60 + leap) ++ fractionText fraction ++ ['Z']

def toText (t : Instant) : String := String.ofList t.toChars

def scanFraction : Scan Nat
  | '.' :: rest => do
    let (n, after) ← scanNumber 9 rest
    let scaled := n * Nat.pow 10 (9 - (rest.length - after.length))
    return (scaled, after.dropWhile fun c => (decimalDigit? c).isSome)
  | cs => some (0, cs)

def scanTwoDigits : Scan Nat
  | a :: b :: rest => do return (10 * (← decimalDigit? a) + (← decimalDigit? b), rest)
  | _ => none

def scanOffset : Scan Int
  | 'Z' :: rest | 'z' :: rest => some (0, rest)
  | cs@(sign :: rest) =>
    if (cs.take 3).map Char.toLower = ['u', 't', 'c'] then some (0, cs.drop 3)
    else do
      let negative ← if sign = '+' then some false
        else if sign = '-' ∨ sign = '\u2212' then some true else none
      let (hours, rest) ← scanTwoDigits rest
      let (minutes, rest) ← scanTwoDigits (rest.dropWhile fun c => c == ':' || isBlank c)
      if minutes < 60 ∧ hours < 24 then
        let seconds : Int := hours * 3600 + minutes * 60
        return (if negative then -seconds else seconds, rest)
      else none
  | [] => none

/-- The instant of a local date and time of day and an offset. A second numbered 60 is
a leap second; the date in UTC must exist as well as the local one. -/
def ofLocal? (day : Date) (hour minute second fraction : Nat) (offset : Int) : Option Instant :=
  if hour < 24 ∧ minute < 60 ∧ second ≤ 60 then
    let (second, nanos) :=
      if second = 60 then (59, nanosPerSecond + fraction) else (second, fraction)
    let ofDay : Int := hour * 3600 + minute * 60 + second
    let t : Instant := ⟨day.dayNumber * secondsPerDay + ofDay - offset, nanos⟩
    if t.date.isRepresentable then some t else none
  else none

def scan : Scan Instant := fun cs => do
  let (day, cs) ← Date.scan cs
  let cs ← match cs with
    | 'T' :: rest | 't' :: rest | ' ' :: rest => some rest
    | _ => none
  let (hour, cs) ← scanNumber 2 (skipBlanks cs)
  let (_, cs) ← scanChar ':' (skipBlanks cs)
  let (minute, cs) ← scanNumber 2 (skipBlanks cs)
  let (_, cs) ← scanChar ':' (skipBlanks cs)
  let (second, cs) ← scanNumber 2 (skipBlanks cs)
  let (fraction, cs) ← scanFraction cs
  let (offset, cs) ← scanOffset (skipBlanks cs)
  return (← ofLocal? day hour minute second fraction offset, cs)

def ofText? (s : String) : Option Instant := do
  let (t, rest) ← scan s.toList
  scanEnd rest
  return t

end Instant

end Entitlement
