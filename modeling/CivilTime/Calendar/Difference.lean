import CivilTime.Calendar.DateTime
import CivilTime.TimeUnit

/-!
# Differences in units

The whole units between two instants, in either order.
-/
namespace CivilTime

/-- Nanoseconds since the first of the month. -/
def timeOfMonth (n : Int) : Int :=
  (epochDay n - { Date.ofDay (epochDay n) with day := 1 }.toDay) * nsPerDay + timeOfDay n

/-- Whole months from `start` to `finish`. The last month counts once it is complete. -/
def monthsFrom (start finish : Int) : Int :=
  let first := Date.ofDay (epochDay start)
  let last := Date.ofDay (epochDay finish)
  let months := 12 * (last.year.number - first.year.number) + last.month - first.month
  if timeOfMonth finish < timeOfMonth start then months - 1 else months

def monthsBetween (a b : Int) : Int := if a ≤ b then monthsFrom a b else monthsFrom b a

def yearsBetween (a b : Int) : Int := monthsBetween a b / 12

def unitsBetween (a b : Int) : TimeUnit → Int
  | .year => yearsBetween a b
  | .month => monthsBetween a b
  | .fixed unit => (a - b).natAbs / unit.length

end CivilTime
