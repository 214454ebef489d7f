import CivilTime.Calendar.Date
import CivilTime.Calendar.Weekday
import CivilTime.Error

/-!
# Dates with a time of day

Readings of an instant as parts of a civil date and time, the joint decomposition, and the
composition that checks every part.

All readings floor: one nanosecond before the epoch is the last one of 1969-12-31.
-/
namespace CivilTime

/-! ### Parts of an instant -/

def epochDay (n : Int) : Int := n / nsPerDay

def yearOf (n : Int) : Year := Year.ofDay (epochDay n)

/-- The month, in a year that holds the instant. -/
def monthOf (n : Int) (year : Year) : Nat :=
  monthOfYearDay year.leap (epochDay n - year.firstDay).toNat

/-- The day of the month, in a year and a month that hold the instant. -/
def dayOfMonth (n : Int) (year : Year) (month : Nat) : Nat :=
  (epochDay n - year.firstDay - daysBeforeMonth year.leap month + 1).toNat

/-- The day of the year, from 1. -/
def dayOfYear (n : Int) : Nat :=
  (epochDay n - (yearOf n).firstDay + 1).toNat

/-- Monday = 1 to Sunday = 7. -/
def weekdayOf (n : Int) : Nat := weekdayOfDay (epochDay n)

/-- Sunday = 1 to Saturday = 7. -/
def weekdayFromSunday (n : Int) : Nat := ((epochDay n + 4) % 7).toNat + 1

/-- Nanoseconds since midnight. -/
def timeOfDay (n : Int) : Int := n % nsPerDay

def hourOf (n : Int) : Nat := (n % nsPerDay / nsPerHour).toNat

def minuteOf (n : Int) : Nat := (n % nsPerHour / nsPerMinute).toNat

def secondOf (n : Int) : Nat := (n % nsPerMinute / nsPerSecond).toNat

def nanosOfSecond (n : Int) : Nat := (n % nsPerSecond).toNat

/-- Whole milliseconds of the second. -/
def millisOfSecond (n : Int) : Nat := (n % nsPerSecond / nsPerMillisecond).toNat

/-- Whole microseconds of the millisecond. -/
def microsOfMilli (n : Int) : Nat := (n % nsPerMillisecond / nsPerMicrosecond).toNat

/-- Nanoseconds of the microsecond. -/
def nanosOfMicro (n : Int) : Nat := (n % nsPerMicrosecond).toNat

/-! ### Decomposition and composition -/

structure DateTime where
  year : Int
  month : Nat
  day : Nat
  hour : Nat
  minute : Nat
  second : Nat
  nanosecond : Nat
  deriving DecidableEq, Repr

/-- The instant `nanosOfDay` after the start of an epoch day. -/
def instantOfDay (day nanosOfDay : Int) : Except TimeError Int :=
  asInstant (day * nsPerDay + nanosOfDay)

namespace DateTime

def ofInstant (n : Int) : DateTime :=
  let date := Date.ofDay (epochDay n)
  { year := date.year.number
    month := date.month
    day := date.day
    hour := hourOf n
    minute := minuteOf n
    second := secondOf n
    nanosecond := nanosOfSecond n }

def date (t : DateTime) : Date := ⟨Year.of t.year, t.month, t.day⟩

/-- Nanoseconds since midnight. -/
def timeOfDay (t : DateTime) : Int :=
  t.hour * nsPerHour + t.minute * nsPerMinute + t.second * nsPerSecond + t.nanosecond

/-- The instant of a date and time. The parts are checked from the month down. -/
def toInstant (t : DateTime) : Except TimeError Int :=
  if t.month < 1 ∨ 12 < t.month then
    fail .monthNotInYear
  else if t.day = 0 ∨ daysInMonth (isLeapYear t.year) t.month < t.day then
    fail .dayNotInMonth
  else if 23 < t.hour ∨ 59 < t.minute ∨ 59 < t.second then
    fail .timeNotInDay
  else if nsPerSecond ≤ t.nanosecond then
    fail .nanosecondNotInSecond
  else
    instantOfDay t.date.toDay t.timeOfDay

end DateTime

def midnight (year : Int) (month day : Nat) : Except TimeError Int :=
  DateTime.toInstant ⟨year, month, day, 0, 0, 0, 0⟩

def startOfYear (year : Year) : Except TimeError Int := instantOfDay year.firstDay 0

def endOfYear (number : Int) : Except TimeError Int :=
  if number + 1 ≤ maxYear then
    instantOfDay (Year.of (number + 1)).firstDay (-1)
  else
    fail .yearOutOfRange

end CivilTime
