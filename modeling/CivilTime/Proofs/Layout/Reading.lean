import CivilTime.Layout.Fields
import CivilTime.Text.Digits
import CivilTime.Zone.OffsetLiteral

/-!
# Reading by characters

The plain way to read: a cursor is the list of the characters that are left with the number of those
before it, a number is what its digits denote, and a name takes off as many characters as it has.
What a layout reads byte by byte is what it reads so.
-/
namespace CivilTime

structure Cursor where
  position : Nat
  rest : List Char
  deriving DecidableEq, Repr

namespace Cursor

def advance (cursor : Cursor) (count : Nat) : Cursor :=
  ⟨cursor.position + count, cursor.rest.drop count⟩

/-- Fails at the next character. -/
def reject {α : Type} (cursor : Cursor) (cause : Cause) : Except TimeError α :=
  .error { cause, position := some cursor.position }

/-- Fails at the next character, where something else was expected. -/
def mismatch {α : Type} (cursor : Cursor) (what : Expectation) : Except TimeError α :=
  cursor.reject (.expected what)

/-- The next digits, of the given width, with the cursor after them.

Exactly so many digits are required of a fixed width, and a missing one is the error. A greedy field
takes all digits there are, at least one. -/
def digits (cursor : Cursor) (width : Width) (quantity : Quantity) :
    Except TimeError (List Char × Cursor) :=
  match width with
  | .fixed count =>
    let ds := Text.leadingDigits count cursor.rest
    if ds.length = count then
      .ok (ds, cursor.advance count)
    else
      (cursor.advance ds.length).mismatch (.digits quantity)
  | .greedy =>
    let ds := cursor.rest.takeWhile Char.isDigit
    if ds.isEmpty then
      cursor.mismatch (.digits quantity)
    else
      .ok (ds, cursor.advance ds.length)

/-- The number that the next digits denote, as a 64-bit count.

A greedy field refuses a number that does not fit. In a field of fixed width the low 64 bits of such
a number count, in two's complement. -/
def numberOf (cursor : Cursor) (width : Width) (quantity : Quantity) (ds : List Char) :
    Except TimeError Int :=
  let n : Int := Text.digitsValue ds
  match width with
  | .fixed _ => .ok (n.bmod 18446744073709551616)
  | .greedy => if n ≤ maxNanos then .ok n else cursor.reject (.numberTooLarge quantity)

def number (cursor : Cursor) (width : Width) (quantity : Quantity) :
    Except TimeError (Located Int × Cursor) := do
  let (ds, after) ← cursor.digits width quantity
  let n ← cursor.numberOf width quantity ds
  return (⟨n, cursor.position⟩, after)

/-- The value of the longest name that comes next, with the cursor after the name. -/
def name {α : Type} (cursor : Cursor) (index : Locale.NameIndex α) (what : Expectation) :
    Except TimeError (Located α × Cursor) :=
  match index.longest? cursor.rest with
  | some found => .ok (⟨found.value, cursor.position⟩, cursor.advance found.length)
  | none => cursor.mismatch what

def literal (cursor : Cursor) (text : String) : Except TimeError Cursor :=
  if text.toList.isPrefixOf cursor.rest then
    .ok (cursor.advance text.length)
  else
    cursor.mismatch (.literal text)

end Cursor

/-! ### Items -/

namespace Cursor

def year (cursor : Cursor) (width : Width) (window : YearWindow) :
    Except TimeError (Located Int × Cursor) := do
  let negative := cursor.rest.head? = some '-'
  let start := if negative then cursor.advance 1 else cursor
  let (read, after) ← start.number width .year
  -- A year without a sign is expanded from two digits, also where the width does not say two.
  let twoDigits :=
    width == .fixed 2 || (width == .greedy && after.position == start.position + 2)
  let value :=
    if negative then -read.value
    else if twoDigits then window.expand read.value
    else read.value
  return (⟨value, cursor.position⟩, after)

/-- The next hour as counted by the cycle, midnight or noon being 0. -/
def hour (cursor : Cursor) (cycle : HourCycle) (width : Width) :
    Except TimeError (Located Int × Cursor) := do
  let (read, after) ← cursor.number width .hour
  if (cycle.least : Int) ≤ read.value ∧ read.value ≤ cycle.greatest then
    return ({ read with value := read.value % cycle.length }, after)
  else
    cursor.reject (.outOfRange .hour)

/-- The next digit, which has to number a weekday. -/
def weekday (cursor : Cursor) : Except TimeError Cursor := do
  let (read, after) ← cursor.number (.fixed 1) .weekday
  if 1 ≤ read.value ∧ read.value ≤ 7 then
    return after
  else
    cursor.reject (.outOfRange .weekday)

/-- The next zone: an offset literal, the name of a zone, or `UTC` or `GMT` alone. -/
def zone (cursor : Cursor) (context : ReadContext) :
    Except TimeError (Located ZoneReading × Cursor) :=
  match Zone.OffsetLiteral.read? cursor.rest with
  | some literal =>
    .ok (⟨.offset literal.offset, cursor.position⟩, cursor.advance literal.length)
  | none =>
    match context.zoneNames.zoneIndex.longest? cursor.rest with
    | some found => do
      let timeline ← locate cursor.position (context.timeline found.value)
      return (⟨.timeline timeline, cursor.position⟩, cursor.advance found.length)
    | none =>
      if Zone.startsWithUtc cursor.rest then
        .ok (⟨.offset 0, cursor.position⟩, cursor.advance 3)
      else
        cursor.mismatch .zone

end Cursor

def Layout.readItem (layout : Layout) (context : ReadContext) (state : Fields × Cursor)
    (item : Item) : Except TimeError (Fields × Cursor) := do
  let (fields, cursor) := state
  match item with
  | .era =>
    let (common, cursor) ← cursor.name context.names.eraIndex .era
    return ({ fields with beforeCommonEra := !common.value }, cursor)
  | .year width =>
    let (year, cursor) ← cursor.year width context.window
    return ({ fields with year := some year }, cursor)
  | .number field width =>
    let (read, cursor) ← cursor.number width field.quantity
    return (fields.setNumber field read, cursor)
  | .hour cycle width =>
    let (hour, cursor) ← cursor.hour cycle width
    return ({ fields with hour := some (cycle, hour) }, cursor)
  | .monthName _ =>
    let (month, cursor) ← cursor.name context.names.monthIndex .monthName
    return (fields.setNumber .month ⟨month.value, month.position⟩, cursor)
  -- Weekdays are read, but not held against the date.
  | .weekdayName _ =>
    let (_, cursor) ← cursor.name context.names.weekdayIndex .weekdayName
    return (fields, cursor)
  | .weekday =>
    let cursor ← cursor.weekday
    return (fields, cursor)
  | .halfOfDay =>
    let (pm, cursor) ← cursor.name context.names.halfOfDayIndex .halfOfDay
    return ({ fields with pm := some pm.value }, cursor)
  | .zone =>
    let (zone, cursor) ← cursor.zone context
    return ({ fields with zone := some zone }, cursor)
  | .literal index =>
    let cursor ← cursor.literal (layout.literal index)
    return (fields, cursor)

/-- Reads all of `cs`, which has `position` characters before it. -/
def Layout.read (layout : Layout) (context : ReadContext) (position : Nat) (cs : List Char) :
    Except TimeError Int := do
  let (fields, cursor) ← layout.items.foldlM (layout.readItem context) ({}, ⟨position, cs⟩)
  if cursor.rest.isEmpty then
    fields.instant position
  else
    cursor.reject .unexpectedInput

end CivilTime
