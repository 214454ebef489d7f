/-!
# Months

Months are numbered from 1. Month 0 and the months past December have no days, so the days before
a month saturate at both ends of the year.
-/
namespace CivilTime

def daysInMonth (leap : Bool) : Nat → Nat
  | 2 => if leap then 29 else 28
  | 4 | 6 | 9 | 11 => 30
  | 1 | 3 | 5 | 7 | 8 | 10 | 12 => 31
  | _ => 0

/-- Days of the year before the first of the month. -/
def daysBeforeMonth (leap : Bool) : Nat → Nat
  | 0 => 0
  | month + 1 => daysBeforeMonth leap month + daysInMonth leap month

/-- The month of the day with `day` days of the year before it.

Months have at most 31 days, so `day / 31 + 1` is that month or the one before. -/
def monthOfYearDay (leap : Bool) (day : Nat) : Nat :=
  let month := min (day / 31) 11 + 1
  if daysBeforeMonth leap (month + 1) ≤ day then month + 1 else month

end CivilTime
