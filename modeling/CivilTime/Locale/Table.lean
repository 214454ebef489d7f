import CivilTime.Locale.NameIndex

/-!
# Names of a locale

The names that one locale has for months, weekdays, the halves of the day, eras and zones, and the
indexes that read them back. A reader takes long and short names alike.
-/
namespace CivilTime.Locale

inductive NameStyle where
  | short
  | long
  deriving DecidableEq, Repr

/-- The names of one locale. Weekdays start on Monday. -/
structure Names where
  months : Vector String 12
  shortMonths : Vector String 12
  weekdays : Vector String 7
  shortWeekdays : Vector String 7
  am : String
  pm : String
  beforeCommonEra : String
  commonEra : String
  /-- Display names of zones and the identifiers of the zones that they denote. -/
  zoneNames : List (String × String)

/-- The names of a locale together with the zone identifiers that can be read as such. -/
structure Table where
  id : String
  names : Names
  zoneIds : List String

/-- Gives each name of two lists, both of this length, its number from 1 in its own list. -/
def numberedBoth (length : Nat) (long short : List String) : List (String × Nat) :=
  (long ++ short).zipIdx.map fun (name, place) => (name, place % length + 1)

/-- Names of zones. Each is known by the place that the identifier of its zone has in a list. -/
structure ZoneIndex where
  ids : List String
  places : NameIndex Nat

namespace ZoneIndex

/-- The longest name of a zone that starts the text, with the identifier of the zone. -/
def longest? (index : ZoneIndex) (cs : List Char) : Option (NameMatch String) := do
  let found ← index.places.longest? cs
  let id ← index.ids[found.value]?
  return ⟨found.name, id⟩

/-- The number of names. -/
def size (index : ZoneIndex) : Nat := index.places.size

end ZoneIndex

namespace Table

/-! ### Names of values -/

/-- The name of a month from 1, empty if there is no such month. -/
def monthName (table : Table) (month : Nat) (style : NameStyle) : String :=
  let names := match style with
    | .short => table.names.shortMonths
    | .long => table.names.months
  if month = 0 then "" else names[month - 1]?.getD ""

/-- The name of a weekday from Monday = 1, empty if there is no such weekday. -/
def weekdayName (table : Table) (weekday : Nat) (style : NameStyle) : String :=
  let names := match style with
    | .short => table.names.shortWeekdays
    | .long => table.names.weekdays
  if weekday = 0 then "" else names[weekday - 1]?.getD ""

def halfOfDay (table : Table) (pm : Bool) : String :=
  if pm then table.names.pm else table.names.am

def era (table : Table) (common : Bool) : String :=
  if common then table.names.commonEra else table.names.beforeCommonEra

/-! ### Values of names -/

def monthIndex (table : Table) : NameIndex Nat :=
  .ofList (numberedBoth 12 table.names.months.toList table.names.shortMonths.toList)

def weekdayIndex (table : Table) : NameIndex Nat :=
  .ofList (numberedBoth 7 table.names.weekdays.toList table.names.shortWeekdays.toList)

/-- The value is whether the name denotes the half of the day after noon. -/
def halfOfDayIndex (table : Table) : NameIndex Bool :=
  .ofList [(table.names.am, false), (table.names.pm, true)]

/-- The value is whether the name denotes the common era. -/
def eraIndex (table : Table) : NameIndex Bool :=
  .ofList [(table.names.beforeCommonEra, false), (table.names.commonEra, true)]

/-- Display names of zones come before identifiers, and so do the identifiers that they denote in the
list of these. -/
def zoneIndex (table : Table) : ZoneIndex :=
  let displayed := table.names.zoneNames
  let registered := table.zoneIds.zipIdx displayed.length
  { ids := displayed.map (·.2) ++ table.zoneIds
    places := .ofList (displayed.zipIdx.map (fun ((name, _), place) => (name, place)) ++ registered) }

end Table
end CivilTime.Locale
