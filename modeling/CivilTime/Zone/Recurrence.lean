import CivilTime.Calendar.Date
import CivilTime.Calendar.Weekday
import CivilTime.Nanos
import CivilTime.Zone.Description

/-!
# Recurring transitions

The instant of an annual rule in a given year. Results are 64-bit counts: each step that leaves the
range stops at its end.
-/
namespace CivilTime.Zone.AnnualRule

/-- The offset before the transition, in nanoseconds. -/
def before (rule : AnnualRule) : Int := rule.offsetBefore * nsPerSecond

/-- The offset after the transition, in nanoseconds. -/
def after (rule : AnnualRule) : Int := rule.offsetAfter * nsPerSecond

/-- The standard offset at the transition, in nanoseconds. -/
def standard (rule : AnnualRule) : Int := rule.standardOffset * nsPerSecond

/-- The epoch day that the rule names in a year. -/
def day (rule : AnnualRule) (year : Year) : Int :=
  let named :=
    if rule.monthDay < 0 then
      let last := rollingDay year.number rule.month
        (daysInMonth year.leap rule.month + 1 + rule.monthDay)
      rule.weekday.elim last (previousOrSameWeekday last)
    else
      let first := rollingDay year.number rule.month rule.monthDay
      rule.weekday.elim first (nextOrSameWeekday first)
  if rule.endOfDay then named + 1 else named

/-- What turns the time of the rule's clock into wall-clock time before the transition. -/
def wallShift (rule : AnnualRule) : Int :=
  match rule.clock with
  | .utc => rule.before
  | .standard => rule.before - rule.standard
  | .wall => 0

/-- The local time of the transition in a year, by the offset before it. -/
def localTransition (rule : AnnualRule) (year : Year) : Int :=
  clamp (clamp (clamp (rule.day year * nsPerDay) + rule.time * nsPerSecond) + rule.wallShift)

/-- The instant of the transition in a year. -/
def utcTransition (rule : AnnualRule) (year : Year) : Int :=
  clamp (rule.localTransition year - rule.before)

end CivilTime.Zone.AnnualRule
