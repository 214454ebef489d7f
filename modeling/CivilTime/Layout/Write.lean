import CivilTime.Calendar.DateTime
import CivilTime.Layout.Basic
import CivilTime.Locale.Standard
import CivilTime.Text.Digits

/-!
# Writing instants

Each item of a layout writes its part of an instant, and the parts are joined.
-/
namespace CivilTime

def Width.write (width : Width) (n : Nat) : List Char :=
  match width with
  | fixed digits => Text.digits n digits
  | greedy => Text.digits n 0

/-- The part of an instant that a field shows. -/
def NumberField.value (n : Int) : NumberField → Nat
  | month => monthOf n (yearOf n)
  | day => dayOfMonth n (yearOf n) (monthOf n (yearOf n))
  | minute => minuteOf n
  | second => secondOf n
  | millisecond => millisOfSecond n
  | microsecond => microsOfMilli n
  | nanosecond => nanosOfMicro n

/-- Years from 1 on are of the common era. -/
def isCommonEra (year : Int) : Bool := 1 ≤ year

/-- The year within its era: year 0 is the year 1 before the common era. -/
def yearOfEra (year : Int) : Int := if isCommonEra year then year else 1 - year

/-- A year with its sign. In two digits, the century is left out. -/
def writeYear (year : Int) (width : Width) : List Char :=
  let shown := if width = .fixed 2 then year.natAbs % 100 else year.natAbs
  (if year < 0 then ['-'] else []) ++ width.write shown

/-- What an item of the layout writes for an instant. -/
def Layout.writeItem (layout : Layout) (table : Locale.Table) (zoneName : String) (n : Int) :
    Item → List Char
  | .era => (table.era (isCommonEra (yearOf n).number)).toList
  | .year width =>
    let year := (yearOf n).number
    writeYear (if layout.hasEra then yearOfEra year else year) width
  | .number field width => width.write (field.value n)
  | .hour cycle width => width.write (cycle.ofHour (hourOf n))
  | .monthName style => (table.monthName (monthOf n (yearOf n)) style).toList
  | .weekdayName style => (table.weekdayName (weekdayOf n) style).toList
  | .weekday => Width.write (.fixed 1) (weekdayOf n)
  | .halfOfDay => (table.halfOfDay (12 ≤ hourOf n)).toList
  | .zone => zoneName.toList
  | .literal index => (layout.literal index).toList

def Layout.write (layout : Layout) (table : Locale.Table) (zoneName : String) (n : Int) :
    List Char :=
  layout.items.flatMap (layout.writeItem table zoneName n)

/-- The text of an instant. Names are English unless there is a table, and `zoneName` is written
for the zone. -/
def Layout.format (layout : Layout) (n : Int) (table : Option Locale.Table) (zoneName : String) :
    String :=
  String.ofList (layout.write (table.getD Locale.Standard.englishTable) zoneName n)

end CivilTime
