import Conformance.Number.Decimal

/-!
# Instants and the calendar

An instant is a second of UTC and the nanoseconds passed in it. A leap second is written as more
than a second's worth of nanoseconds in the last second of a minute. Days are counted from
1970-01-01; `civil` and `dayNumber` convert between the count and a date of the proleptic Gregorian
calendar, by way of years that start in March, so that the leap day comes last.
-/

namespace Conformance

/-- A date of the proleptic Gregorian calendar. -/
structure Date where
  year : Int
  month : Nat
  day : Nat
deriving DecidableEq, Repr

namespace Date

def isLeapYear (year : Int) : Bool :=
  year % 4 = 0 && (year % 100 ≠ 0 || year % 400 = 0)

def daysInMonth (year : Int) (month : Nat) : Nat :=
  if month = 2 then if isLeapYear year then 29 else 28
  else if month = 4 ∨ month = 6 ∨ month = 9 ∨ month = 11 then 30
  else 31

/-- The first and the last year that have instants. -/
def minYear : Int := -262143

@[inherit_doc minYear]
def maxYear : Int := 262142

def isValid (d : Date) : Bool :=
  minYear ≤ d.year && d.year ≤ maxYear && 1 ≤ d.month && d.month ≤ 12 &&
    1 ≤ d.day && d.day ≤ daysInMonth d.year d.month

/-- The number of a date, counted in days from 1970-01-01. -/
def dayNumber (d : Date) : Int :=
  let y := if d.month ≤ 2 then d.year - 1 else d.year
  let era := y.fdiv 400
  let yearOfEra := y - era * 400
  let monthFromMarch : Int := (d.month + 9) % 12
  let dayOfYear := (153 * monthFromMarch + 2) / 5 + d.day - 1
  let dayOfEra := yearOfEra * 365 + yearOfEra / 4 - yearOfEra / 100 + dayOfYear
  era * 146097 + dayOfEra - 719468

/-- The date with a number. -/
def civil (days : Int) : Date :=
  let z := days + 719468
  let era := z.fdiv 146097
  let dayOfEra := z - era * 146097
  let yearOfEra := (dayOfEra - dayOfEra / 1460 + dayOfEra / 36524 - dayOfEra / 146096) / 365
  let dayOfYear := dayOfEra - (365 * yearOfEra + yearOfEra / 4 - yearOfEra / 100)
  let monthFromMarch := (5 * dayOfYear + 2) / 153
  let day := dayOfYear - (153 * monthFromMarch + 2) / 5 + 1
  let month := if monthFromMarch < 10 then monthFromMarch + 3 else monthFromMarch - 9
  let year := yearOfEra + era * 400 + if month ≤ 2 then 1 else 0
  ⟨year, month.toNat, day.toNat⟩

end Date

/-- An instant: seconds from 1970-01-01T00:00:00Z, and nanoseconds in that second. -/
structure Instant where
  seconds : Int
  nanos : Nat
deriving DecidableEq, Repr

namespace Instant

def daySeconds : Int := 86400

/-- A thousand million nanoseconds, from which on they belong to a leap second. -/
def secondNanos : Nat := 1000000000

/-- Whether an instant can be made from a timestamp or read from a text: its year is in range, and
only the last second of a minute has a leap second. Replacing the nanoseconds of an instant could
put a leap second after any other; such instants are not meant. -/
def isValid (t : Instant) : Bool :=
  (Date.mk Date.minYear 1 1).dayNumber * daySeconds ≤ t.seconds &&
    t.seconds < ((Date.mk Date.maxYear 12 31).dayNumber + 1) * daySeconds &&
    (t.nanos < secondNanos || (t.nanos < 2 * secondNanos && t.seconds % 60 = 59))

def date (t : Instant) : Date := Date.civil (t.seconds.fdiv daySeconds)

def secondOfDay (t : Instant) : Nat := (t.seconds.fmod daySeconds).toNat

def hour (t : Instant) : Nat := t.secondOfDay / 3600

def minute (t : Instant) : Nat := t.secondOfDay / 60 % 60

/-- The second of an instant, 60 in a leap second. -/
def second (t : Instant) : Nat :=
  t.secondOfDay % 60 + if secondNanos ≤ t.nanos then 1 else 0

/-- The nanoseconds behind the second shown. -/
def fraction (t : Instant) : Nat := t.nanos % secondNanos

/-- A year with at least four digits; years outside 0 to 9999 have a sign. -/
def yearText (year : Int) : String :=
  if 0 ≤ year ∧ year ≤ 9999 then Decimal.paddedText 4 year.toNat
  else (if year < 0 then "-" else "+") ++ Decimal.paddedText 4 year.natAbs

def two (n : Nat) : String := Decimal.paddedText 2 n

/-- The identifier of a run that started at this instant: date and time of day. -/
def stamp (t : Instant) : String :=
  yearText t.date.year ++ two t.date.month ++ two t.date.day ++ "-" ++
    two t.hour ++ two t.minute ++ two t.second

/-- The fraction of a second in three, six or nine digits, whichever is the first to be exact. -/
def fractionText (n : Nat) : String :=
  if n = 0 then ""
  else if n % 1000000 = 0 then "." ++ Decimal.paddedText 3 (n / 1000000)
  else if n % 1000 = 0 then "." ++ Decimal.paddedText 6 (n / 1000)
  else "." ++ Decimal.paddedText 9 n

def rfc3339 (t : Instant) : String :=
  yearText t.date.year ++ "-" ++ two t.date.month ++ "-" ++ two t.date.day ++ "T" ++
    two t.hour ++ ":" ++ two t.minute ++ ":" ++ two t.second ++ fractionText t.fraction ++ "Z"

end Instant

end Conformance
