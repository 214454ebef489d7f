import CivilTime.Calendar.DateTime
import CivilTime.TimeUnit

/-!
# Addition of units

Units of one length are added as nanoseconds. Months and years keep the time of day and move the
date, a day past the end of the target month becoming its last day.
-/
namespace CivilTime

/-- Adds `amount` times `length` nanoseconds. -/
def addFixed (n amount length : Int) : Except TimeError Int :=
  -- The added span has itself to fit in 64 bits.
  if Representable (amount * length) then
    asInstant (n + amount * length)
  else
    fail .instantOutOfRange

def addDays (n days : Int) : Except TimeError Int := addFixed n days nsPerDay

/-- Adds calendar months. -/
def addMonths (n months : Int) : Except TimeError Int :=
  if months = 0 then
    .ok n
  else
    let date := Date.ofDay (epochDay n)
    let total := date.year.number * 12 + date.month - 1 + months
    if ¬ Representable total then
      fail .monthCountOutOfRange
    else if ¬ IsYear (total / 12) then
      fail .yearOutOfRange
    else
      let year := Year.of (total / 12)
      let month := (total % 12).toNat + 1
      -- A day past the end of the target month becomes its last day.
      let day := min date.day (daysInMonth year.leap month)
      instantOfDay (Date.toDay ⟨year, month, day⟩) (timeOfDay n)

/-- Adds calendar years; February 29th becomes February 28th in common years. -/
def addYears (n years : Int) : Except TimeError Int :=
  if Representable (years * 12) then
    addMonths n (years * 12)
  else
    fail .yearCountOutOfRange

/-- Adds `amount` units. -/
def addUnits (n : Int) (unit : TimeUnit) (amount : Int) : Except TimeError Int :=
  match unit with
  | .year => addYears n amount
  | .month => addMonths n amount
  | .fixed unit => addFixed n amount unit.length

/-- The next date on the weekday, or this one, at the same time of day. -/
def toNextOrSameWeekday (n : Int) (weekday : Nat) : Except TimeError Int :=
  addDays n (((weekday : Int) - weekdayOf n) % 7)

/-- The previous date on the weekday, or this one, at the same time of day. -/
def toPreviousOrSameWeekday (n : Int) (weekday : Nat) : Except TimeError Int :=
  addDays n (-(((weekdayOf n : Int) - weekday) % 7))

end CivilTime
