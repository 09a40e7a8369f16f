/-!
Instants of civil time.
Days are counted from 1 January 1970 in the Gregorian calendar, also before it was introduced.
-/
namespace EventSourcing

/-- Seconds since the start of 1970 and nanoseconds within the second. A count of 10^9 or more
stands for a leap second at the end of that second. -/
structure Timestamp where
  seconds : Int
  nanos : Nat
  deriving DecidableEq, Repr, Inhabited

namespace Timestamp

def ofMillis (ms : Int) : Timestamp := ⟨ms.fdiv 1000, (ms.fmod 1000).toNat * 1000000⟩

/-- A day of the calendar. -/
structure Date where
  year : Int
  month : Nat
  day : Nat
  deriving DecidableEq, Repr

/-- The day number of a date. Years are counted from March, so that a leap day comes last. -/
def Date.toDays (d : Date) : Int :=
  let y : Int := if d.month ≤ 2 then d.year - 1 else d.year
  let era := y.fdiv 400
  let yearOfEra := y - era * 400
  let monthFromMarch : Int := if d.month ≤ 2 then d.month + 9 else d.month - 3
  let dayOfYear := (153 * monthFromMarch + 2) / 5 + d.day - 1
  let dayOfEra := yearOfEra * 365 + yearOfEra / 4 - yearOfEra / 100 + dayOfYear
  era * 146097 + dayOfEra - 719468

def Date.ofDays (days : Int) : Date :=
  let z := days + 719468
  let era := z.fdiv 146097
  let dayOfEra := z - era * 146097
  let yearOfEra := (dayOfEra - dayOfEra / 1460 + dayOfEra / 36524 - dayOfEra / 146096) / 365
  let dayOfYear := dayOfEra - (365 * yearOfEra + yearOfEra / 4 - yearOfEra / 100)
  let monthFromMarch := (5 * dayOfYear + 2) / 153
  let day := dayOfYear - (153 * monthFromMarch + 2) / 5 + 1
  let month := if monthFromMarch < 10 then monthFromMarch + 3 else monthFromMarch - 9
  let year := yearOfEra + era * 400
  ⟨if month ≤ 2 then year + 1 else year, month.toNat, day.toNat⟩

def isLeapYear (y : Int) : Bool := y % 4 = 0 && (y % 100 ≠ 0 || y % 400 = 0)

def daysInMonth (y : Int) (month : Nat) : Nat :=
  if month = 2 then if isLeapYear y then 29 else 28
  else if month = 4 ∨ month = 6 ∨ month = 9 ∨ month = 11 then 30
  else 31

def firstYear : Int := -262143
def lastYear : Int := 262142

/-- A date that exists and can be represented. -/
def Date.valid (d : Date) : Bool :=
  firstYear ≤ d.year && d.year ≤ lastYear && 1 ≤ d.month && d.month ≤ 12 &&
  1 ≤ d.day && d.day ≤ daysInMonth d.year d.month

def secondsPerDay : Int := 86400

def day (t : Timestamp) : Int := t.seconds.fdiv secondsPerDay

def secondOfDay (t : Timestamp) : Nat := (t.seconds.fmod secondsPerDay).toNat

end Timestamp
end EventSourcing
