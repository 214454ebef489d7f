import CivilTime.Nanos

/-!
# Units of time

Units up to the week have one length; months and years are counted on the calendar.
-/
namespace CivilTime

/-- The units of one length. -/
inductive FixedUnit where
  | nanosecond | microsecond | millisecond | second | minute | hour | day | week
  deriving DecidableEq, Repr

/-- The length of the unit in nanoseconds. -/
def FixedUnit.length : FixedUnit → Int
  | nanosecond => 1
  | microsecond => nsPerMicrosecond
  | millisecond => nsPerMillisecond
  | second => nsPerSecond
  | minute => nsPerMinute
  | hour => nsPerHour
  | day => nsPerDay
  | week => nsPerWeek

theorem FixedUnit.length_pos (unit : FixedUnit) : 0 < unit.length := by
  cases unit <;> decide

inductive TimeUnit where
  | fixed (unit : FixedUnit)
  | month
  | year
  deriving DecidableEq, Repr

namespace TimeUnit

def all : List TimeUnit :=
  [year, month, fixed .week, fixed .day, fixed .hour, fixed .minute, fixed .second,
   fixed .millisecond, fixed .microsecond, fixed .nanosecond]

/-- The length of a unit that has one. -/
def length? : TimeUnit → Option Int
  | fixed unit => some unit.length
  | month => none
  | year => none

/-- Whether the length of the unit depends on the date. -/
def isCalendar (unit : TimeUnit) : Bool := unit.length?.isNone

def name : TimeUnit → String
  | year => "year"
  | month => "month"
  | fixed .week => "week"
  | fixed .day => "day"
  | fixed .hour => "hour"
  | fixed .minute => "minute"
  | fixed .second => "second"
  | fixed .millisecond => "millisecond"
  | fixed .microsecond => "microsecond"
  | fixed .nanosecond => "nanosecond"

/-- The letter of the unit in period expressions. -/
def letter : TimeUnit → Char
  | year => 'y'
  | month => 'M'
  | fixed .week => 'w'
  | fixed .day => 'd'
  | fixed .hour => 'h'
  | fixed .minute => 'm'
  | fixed .second => 's'
  | fixed .millisecond => 'T'
  | fixed .microsecond => 'U'
  | fixed .nanosecond => 'n'

/-- A unit is written by its name, by its name in the plural, or by its letter. -/
def spellings (unit : TimeUnit) : List String :=
  [unit.name, unit.name ++ "s", String.singleton unit.letter]

def ofString? (s : String) : Option TimeUnit :=
  all.find? fun unit => unit.spellings.contains s

end TimeUnit
end CivilTime
