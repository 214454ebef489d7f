import CivilTime.Calendar.DateTime
import CivilTime.TimeUnit

/-!
# Rounding to units

Rounding down yields the first nanosecond of the unit that holds the instant, rounding up the
last one. Weeks run from Monday to Sunday; units of one length start at its multiples.
-/
namespace CivilTime

/-- The last multiple of `length` at or before the instant. -/
def floorToMultiple (n length : Int) : Except TimeError Int :=
  asInstant (n - n % length)

def floorDay (n : Int) : Except TimeError Int := floorToMultiple n nsPerDay

/-- The Monday that starts the week. -/
def floorWeek (n : Int) : Except TimeError Int :=
  instantOfDay (previousOrSameWeekday (epochDay n) 1) 0

/-- The first of the month. -/
def floorMonth (n : Int) : Except TimeError Int :=
  instantOfDay { Date.ofDay (epochDay n) with day := 1 }.toDay 0

/-- January 1st of the year. -/
def floorYear (n : Int) : Except TimeError Int := startOfYear (yearOf n)

def floorTo (n : Int) : TimeUnit → Except TimeError Int
  | .year => floorYear n
  | .month => floorMonth n
  | .fixed .week => floorWeek n
  | .fixed unit => floorToMultiple n unit.length

/-- The last nanosecond before the next multiple of `length`. -/
def ceilToMultiple (n length : Int) : Except TimeError Int :=
  -- The multiple that the interval starts with has to fit in 64 bits.
  if Representable (n - n % length) then
    asInstant (n - n % length + (length - 1))
  else
    fail .instantOutOfRange

def ceilDay (n : Int) : Except TimeError Int := instantOfDay (epochDay n + 1) (-1)

/-- The last nanosecond of the Sunday that ends the week. -/
def ceilWeek (n : Int) : Except TimeError Int :=
  instantOfDay (previousOrSameWeekday (epochDay n) 1 + 7) (-1)

def ceilMonth (n : Int) : Except TimeError Int :=
  let date := Date.ofDay (epochDay n)
  instantOfDay ({ date with day := daysInMonth date.year.leap date.month }.toDay + 1) (-1)

def ceilYear (n : Int) : Except TimeError Int := endOfYear (yearOf n).number

def ceilTo (n : Int) : TimeUnit → Except TimeError Int
  | .year => ceilYear n
  | .month => ceilMonth n
  | .fixed .week => ceilWeek n
  | .fixed unit => ceilToMultiple n unit.length

end CivilTime
