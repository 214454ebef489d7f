import CivilTime.Calendar.Month
import CivilTime.Calendar.Year

/-!
# Dates

A civil date and the epoch day it names.
-/
namespace CivilTime

structure Date where
  year : Year
  month : Nat
  day : Nat
  deriving DecidableEq, Repr

namespace Date

/-- The date of an epoch day. -/
def ofDay (day : Int) : Date :=
  let year := Year.ofDay day
  let yearDay := (day - year.firstDay).toNat
  let month := monthOfYearDay year.leap yearDay
  ⟨year, month, yearDay - daysBeforeMonth year.leap month + 1⟩

/-- The epoch day of a date. A day past the end of its month rolls over into the next ones. -/
def toDay (date : Date) : Int :=
  date.year.firstDay + daysBeforeMonth date.year.leap date.month + date.day - 1

end Date

/-- The epoch day that is `day - 1` days after the first of the month. -/
def rollingDay (year : Int) (month : Nat) (day : Int) : Int :=
  let year := Year.of year
  year.firstDay + daysBeforeMonth year.leap month + day - 1

end CivilTime
