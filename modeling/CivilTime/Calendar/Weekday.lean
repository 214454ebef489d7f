/-!
# Weekdays

Weekdays of epoch days, numbered from Monday = 1 to Sunday = 7. Epoch day 0 is a Thursday.
-/
namespace CivilTime

def weekdayOfDay (day : Int) : Nat := ((day + 3) % 7).toNat + 1

/-- The first day from `day` on that falls on `weekday`. -/
def nextOrSameWeekday (day : Int) (weekday : Nat) : Int :=
  day + ((weekday : Int) - weekdayOfDay day) % 7

/-- The last day up to `day` that falls on `weekday`. -/
def previousOrSameWeekday (day : Int) (weekday : Nat) : Int :=
  day - ((weekdayOfDay day : Int) - weekday) % 7

end CivilTime
