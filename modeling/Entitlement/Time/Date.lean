import Entitlement.Text.Scan

/-!
# Calendar dates

A date is the number of days since 1 January 1970 in the Gregorian calendar
extended to all years. Year, month and day are views of that number: a cycle of
400 years has 146097 days, and counting years from March puts the leap day last.
-/

set_option autoImplicit false

namespace Entitlement

open Text

structure Date where
  dayNumber : Int
  deriving DecidableEq, Repr, Inhabited

namespace Date

def isLeap (year : Int) : Bool := year % 4 == 0 && (year % 100 != 0 || year % 400 == 0)

def daysInMonth (year : Int) (month : Nat) : Nat :=
  if month = 2 then (if isLeap year then 29 else 28)
  else if month = 4 ∨ month = 6 ∨ month = 9 ∨ month = 11 then 30 else 31

def ofCivil (year : Int) (month day : Nat) : Date :=
  let y := if month ≤ 2 then year - 1 else year
  let yearOfEra := y % 400
  let monthFromMarch : Int := if month ≤ 2 then month + 9 else month - 3
  let dayOfYear := (153 * monthFromMarch + 2) / 5 + day - 1
  let dayOfEra := yearOfEra * 365 + yearOfEra / 4 - yearOfEra / 100 + dayOfYear
  ⟨y / 400 * 146097 + dayOfEra - 719468⟩

structure Civil where
  year : Int
  month : Nat
  day : Nat
  deriving DecidableEq, Repr

def civil (d : Date) : Civil :=
  let z := d.dayNumber + 719468
  let dayOfEra := z % 146097
  let yearOfEra := (dayOfEra - dayOfEra / 1460 + dayOfEra / 36524 - dayOfEra / 146096) / 365
  let dayOfYear := dayOfEra - (365 * yearOfEra + yearOfEra / 4 - yearOfEra / 100)
  let monthFromMarch := (5 * dayOfYear + 2) / 153
  let day := dayOfYear - (153 * monthFromMarch + 2) / 5 + 1
  let month := if monthFromMarch < 10 then monthFromMarch + 3 else monthFromMarch - 9
  let year := yearOfEra + z / 146097 * 400
  ⟨if month ≤ 2 then year + 1 else year, month.toNat, day.toNat⟩

def leastYear : Int := -262143

def greatestYear : Int := 262142

def isRepresentable (d : Date) : Bool :=
  (ofCivil leastYear 1 1).dayNumber ≤ d.dayNumber &&
    d.dayNumber ≤ (ofCivil greatestYear 12 31).dayNumber

def ofCivil? (year : Int) (month day : Nat) : Option Date :=
  if leastYear ≤ year ∧ year ≤ greatestYear ∧ 1 ≤ month ∧ month ≤ 12 ∧ 1 ≤ day ∧
      day ≤ daysInMonth year month then
    some (ofCivil year month day)
  else none

def sameDayOfYear (a b : Date) : Bool :=
  a.civil.month == b.civil.month && a.civil.day == b.civil.day

def yearText (year : Int) : List Char :=
  if 0 ≤ year ∧ year ≤ 9999 then fixedDigits 10 4 year.toNat
  else
    let sign := if year < 0 then '-' else '+'
    let ds := decimal year.natAbs
    sign :: (List.replicate (4 - ds.length) '0' ++ ds)

def toChars (d : Date) : List Char :=
  let c := d.civil
  yearText c.year ++ '-' :: fixedDigits 10 2 c.month ++ '-' :: fixedDigits 10 2 c.day

def toText (d : Date) : String := String.ofList d.toChars

def scanYear : Scan Int
  | '-' :: rest => do
    let (n, rest) ← scanNumber rest.length rest
    return (-(n : Int), rest)
  | '+' :: rest => do
    let (n, rest) ← scanNumber rest.length rest
    return ((n : Int), rest)
  | cs => do
    let (n, rest) ← scanNumber 4 cs
    return ((n : Int), rest)

def scan : Scan Date := fun cs => do
  let (year, cs) ← scanYear (skipBlanks cs)
  let (_, cs) ← scanChar '-' (skipBlanks cs)
  let (month, cs) ← scanNumber 2 (skipBlanks cs)
  let (_, cs) ← scanChar '-' (skipBlanks cs)
  let (day, cs) ← scanNumber 2 (skipBlanks cs)
  return (← ofCivil? year month day, cs)

def ofText? (s : String) : Option Date := do
  let (d, rest) ← scan s.toList
  scanEnd rest
  return d

end Date

end Entitlement
