/-!
# Years

Years of the proleptic Gregorian calendar, counted through zero into the negative, and the epoch
days they start on. Epoch day 0 is 1970-01-01.

The year of a day comes from a linear estimate, 400 years per 146097 days, and at most one
step of correction.
-/
namespace CivilTime

/-- Every fourth year, except the centuries that are not multiples of 400. -/
def isLeapYear (year : Int) : Bool :=
  year % 4 == 0 && (year % 100 != 0 || year % 400 == 0)

/-- Leap years in `1..=year`, counted negatively before year 1. -/
def leapYearsThrough (year : Int) : Int :=
  year / 4 - year / 100 + year / 400

/-- A year with the leap flag to use for it. -/
structure Year where
  number : Int
  leap : Bool
  deriving DecidableEq, Repr

namespace Year

/-- The year of this number, with its own leap flag. -/
def of (number : Int) : Year := ⟨number, isLeapYear number⟩

/-- The epoch day of January 1st. -/
def firstDay (year : Year) : Int :=
  365 * (year.number - 1970) + leapYearsThrough year.number - year.leap.toNat
    - leapYearsThrough 1969

/-- The number of the year that holds the epoch day `day`. -/
def numberOfDay (day : Int) : Int :=
  -- Leap days are not spread evenly, so the estimate may be a year ahead or behind.
  let estimate := 1970 + day * 400 / 146097
  if day < (of estimate).firstDay then
    estimate - 1
  else if (of (estimate + 1)).firstDay ≤ day then
    estimate + 1
  else
    estimate

/-- The year that holds the epoch day `day`. -/
def ofDay (day : Int) : Year := of (numberOfDay day)

end Year

/-- Years are numbered in 32 bits. -/
abbrev minYear : Int := -2147483648

/-- Years are numbered in 32 bits. -/
abbrev maxYear : Int := 2147483647

def IsYear (number : Int) : Prop := minYear ≤ number ∧ number ≤ maxYear

instance (number : Int) : Decidable (IsYear number) :=
  inferInstanceAs (Decidable (_ ∧ _))

end CivilTime
