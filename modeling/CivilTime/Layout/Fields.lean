import CivilTime.Calendar.YearWindow
import CivilTime.Layout.Basic
import CivilTime.Locale.Standard
import CivilTime.Zone.Bundled

/-!
# Fields

A text is read item by item into fields; a later item overwrites what an earlier one gave for the
same field. Once all items have read and no text is left, the fields are checked and make a local
time, to which the zone applies, if one was read.
-/
namespace CivilTime

/-- What the reader of a text knows. -/
structure ReadContext where
  /-- The names to read. English ones unless given. -/
  locale : Option Locale.Table := none
  /-- The zones that names denote. The bundled ones unless given. -/
  zones : Option (String → Except TimeError Zone.Timeline) := none
  bundled : Zone.Catalogue := Zone.Bundled.catalogue
  window : YearWindow

namespace ReadContext

def names (context : ReadContext) : Locale.Table :=
  context.locale.getD Locale.Standard.englishTable

/-- The table whose zone names are read. -/
def zoneNames (context : ReadContext) : Locale.Table :=
  context.locale.getD ⟨"en", Locale.Standard.english, context.bundled.ids⟩

def timeline (context : ReadContext) (id : String) : Except TimeError Zone.Timeline :=
  match context.zones with
  | some zones => zones id
  | none => context.bundled.get id

end ReadContext

/-- A value with the place in the text that it was read from. -/
structure Located (α : Type) where
  value : α
  position : Nat
  deriving DecidableEq, Repr

/-- The zone that a text gives. -/
inductive ZoneReading where
  | offset (offset : Int)
  | timeline (timeline : Zone.Timeline)

structure Fields where
  beforeCommonEra : Bool := false
  year : Option (Located Int) := none
  number : NumberField → Option (Located Int) := fun _ => none
  hour : Option (HourCycle × Located Int) := none
  pm : Option Bool := none
  zone : Option (Located ZoneReading) := none

namespace Fields

def setNumber (fields : Fields) (field : NumberField) (read : Located Int) : Fields :=
  { fields with number := fun other => if other = field then some read else fields.number other }

end Fields

/-! ### From fields to an instant -/

namespace Fields

/-- The year, 1970 if none was read. -/
def yearNumber (fields : Fields) : Except TimeError Int :=
  match fields.year with
  | none => .ok 1970
  | some read =>
    let year := if fields.beforeCommonEra then 1 - read.value else read.value
    if IsYear year then .ok year
    else .error { cause := .outOfRange .year, position := some read.position }

/-- A number within its bounds, `least` if none was read. -/
def part (fields : Fields) (field : NumberField) (least greatest : Nat) : Except TimeError Nat :=
  match fields.number field with
  | none => .ok least
  | some read =>
    if (least : Int) ≤ read.value ∧ read.value ≤ greatest then .ok read.value.toNat
    else .error { cause := .outOfRange field.quantity, position := some read.position }

def hourOfDay (fields : Fields) : Except TimeError Nat :=
  match fields.hour with
  -- The second half of the day alone stands for noon.
  | none => .ok (if fields.pm = some true then 12 else 0)
  | some (cycle, read) =>
    -- It moves the hours of a cycle of twelve, and those before noon of a cycle of twenty-four.
    let moved := fields.pm == some true && (cycle.length == 12 || read.value < 12)
    let hour := if moved then read.value + 12 else read.value
    if 0 ≤ hour ∧ hour ≤ 23 then .ok hour.toNat
    else .error { cause := .outOfRange .hour, position := some read.position }

/-- The date and time that the fields give. Parts that were not read are their least values. -/
def dateTime (fields : Fields) : Except TimeError DateTime := do
  let year ← fields.yearNumber
  let month ← fields.part .month 1 12
  let day ← fields.part .day 1 (daysInMonth (isLeapYear year) month)
  let hour ← fields.hourOfDay
  let minute ← fields.part .minute 0 59
  let second ← fields.part .second 0 59
  let millisecond ← fields.part .millisecond 0 999
  let microsecond ← fields.part .microsecond 0 999
  let nanosecond ← fields.part .nanosecond 0 999
  return {
    year, month, day, hour, minute, second
    nanosecond := millisecond * 1000000 + microsecond * 1000 + nanosecond }

/-- The offset of the zone at a local time of the given year. -/
def offsetAt (zone : ZoneReading) (localTime : Int) (year : Int) : Int :=
  match zone with
  | .offset offset => offset
  | .timeline timeline => timeline.offsetAt localTime (Year.of year)

/-- The instant that the fields give, where `start` is the position of the text. -/
def instant (fields : Fields) (start : Nat) : Except TimeError Int := do
  let t ← fields.dateTime
  let localTime ← locate ((fields.year.map (·.position)).getD start) t.toInstant
  match fields.zone with
  | none => return localTime
  | some zone =>
    let n := localTime - offsetAt zone.value localTime t.year
    if IsInstant n then
      return n
    else
      .error { cause := .outOfRange .instant, position := some zone.position }

end Fields

end CivilTime
