import CivilTime.Calendar.Month
import CivilTime.Zone.SourceError

/-!
# Descriptions of zones

What a source of zone data says about a zone: one offset, or a table of historic transitions with
the annual rules that follow them. Offsets and times of day are in seconds, transitions in seconds
since the epoch.
-/
namespace CivilTime.Zone

/-- The clock that shows the time of day of a rule. -/
inductive RuleClock where
  | utc
  /-- Local time without daylight saving. -/
  | standard
  /-- Local time just before the transition. -/
  | wall
  deriving DecidableEq, Repr

/-- A transition that recurs every year. -/
structure AnnualRule where
  offsetBefore : Int
  offsetAfter : Int
  standardOffset : Int
  month : Nat
  /-- The day of the month, counted from its end if negative. Days past the end of the month roll
  over into the next ones. -/
  monthDay : Int
  /-- The weekday to move to: forward from a day counted from the start of the month, backward from
  one counted from its end. -/
  weekday : Option Nat
  /-- The time of day. May be negative or longer than a day. -/
  time : Int
  /-- The transition is at the end of the day, not at its start. -/
  endOfDay : Bool
  clock : RuleClock
  deriving DecidableEq, Repr

namespace AnnualRule

/-- Checks the parts of a rule. -/
def validate (rule : AnnualRule) : Except SourceError Unit :=
  if rule.month < 1 ∨ 12 < rule.month then
    .error (.outOfRange "rule month must be in 1..=12")
  else if rule.monthDay = 0 ∨ rule.monthDay < -28 then
    .error (.outOfRange "rule day of month indicator must be non-zero and at least -28")
  else if rule.weekday.any fun weekday => weekday < 1 || 7 < weekday then
    .error (.outOfRange "rule day of week must be in 1..=7")
  else if rule.endOfDay ∧ rule.time ≠ 0 then
    .error (.outOfRange "end of day rules must have a midnight time of day")
  else
    .ok ()

/-- The day of a common year that the rule names before it moves to a weekday. -/
def approximateYearDay (rule : AnnualRule) : Int :=
  let day :=
    if rule.monthDay < 0 then daysInMonth false rule.month + 1 + rule.monthDay else rule.monthDay
  daysBeforeMonth false rule.month + day

end AnnualRule

structure TransitionTable where
  /-- Ascending. -/
  transitions : List Int
  /-- The offset before the first transition, then the offset after each. -/
  offsets : List Int
  /-- In calendar order. -/
  rules : List AnnualRule
  deriving DecidableEq, Repr

/-- Checks the shape of a table, then its rules in order. -/
def TransitionTable.validate (table : TransitionTable) : Except SourceError Unit :=
  if table.offsets.length ≠ table.transitions.length + 1 then
    .error (.inconsistent "offsets must be one longer than transitions")
  else if ¬ table.transitions.Pairwise (· ≤ ·) then
    .error (.inconsistent "transitions must be sorted ascending")
  else
    table.rules.forM AnnualRule.validate

inductive Description where
  | fixed (offset : Int)
  | table (table : TransitionTable)
  deriving DecidableEq, Repr

def Description.validate : Description → Except SourceError Unit
  | fixed _ => .ok ()
  | table t => t.validate

end CivilTime.Zone
