import CivilTime.Error
import CivilTime.Locale.Table

/-!
# Layouts

A layout is the sequence of fields and fixed texts that an instant is written as and read back from.
The fixed texts stand in a table, which the items of the layout index.
-/
namespace CivilTime

inductive Width where
  /-- Written with zeros in front up to this many digits, read from exactly this many. -/
  | fixed (digits : Nat)
  /-- Written without zeros in front, read as far as digits go. -/
  | greedy
  deriving DecidableEq, Repr

/-- The fields that show one part of the date or time as its plain number. -/
inductive NumberField where
  | month | day | minute | second
  /-- Of the second. -/
  | millisecond
  /-- Of the millisecond. -/
  | microsecond
  /-- Of the microsecond. -/
  | nanosecond
  deriving DecidableEq, Repr

def NumberField.quantity : NumberField → Quantity
  | month => .month
  | day => .day
  | minute => .minute
  | second => .second
  | millisecond => .millisecond
  | microsecond => .microsecond
  | nanosecond => .nanosecond

/-- The ways of counting the hours, named for the first and the last hour. -/
inductive HourCycle where
  | from0To23
  /-- Midnight is 24. -/
  | from1To24
  | from0To11
  /-- Noon and midnight are 12. -/
  | from1To12
  deriving DecidableEq, Repr

namespace HourCycle

def least : HourCycle → Nat
  | from0To23 => 0
  | from1To24 => 1
  | from0To11 => 0
  | from1To12 => 1

/-- The number of hours after which the cycle starts again. -/
def length : HourCycle → Nat
  | from0To23 => 24
  | from1To24 => 24
  | from0To11 => 12
  | from1To12 => 12

def greatest (cycle : HourCycle) : Nat := cycle.least + cycle.length - 1

/-- How the cycle shows an hour of the day. -/
def ofHour (cycle : HourCycle) (hour : Nat) : Nat :=
  let hour := hour % cycle.length
  if hour < cycle.least then cycle.length else hour

end HourCycle

inductive Item where
  /-- The era. A layout that has it counts years within the era. -/
  | era
  /-- The year. Two digits are read through the window of two-digit years. -/
  | year (width : Width)
  | number (field : NumberField) (width : Width)
  | hour (cycle : HourCycle) (width : Width)
  | monthName (style : Locale.NameStyle)
  /-- The name of the weekday, which is read but not held against the date. -/
  | weekdayName (style : Locale.NameStyle)
  /-- One digit, Monday = 1. -/
  | weekday
  | halfOfDay
  /-- Written as a given name, read as an offset or as the name of a zone. -/
  | zone
  /-- The fixed text at this place of the table. -/
  | literal (index : Nat)
  deriving DecidableEq, Repr

structure Layout where
  items : List Item
  literals : List String
  deriving DecidableEq, Repr

namespace Layout

def maxLiterals : Nat := 65536

/-- The item, if it is a fixed text, is in a table of this size. -/
def inTable (size : Nat) : Item → Bool
  | .literal index => index < size
  | _ => true

def ofItems (items : List Item) (literals : List String) : Except TimeError Layout :=
  if maxLiterals < literals.length then
    fail .tooManyLiterals
  else if items.all (inTable literals.length) then
    .ok ⟨items, literals⟩
  else
    fail .literalIndexOutOfRange

def literal (layout : Layout) (index : Nat) : String := layout.literals[index]?.getD ""

def hasEra (layout : Layout) : Bool := layout.items.contains .era

end Layout
end CivilTime
