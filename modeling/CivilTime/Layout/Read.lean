import CivilTime.Layout.ByteCursor

/-!
# Reading instants

A text is read item by item into fields, from a cursor that moves on by bytes. What the fields give
is the instant. Errors are located by bytes while reading and by characters in the end.
-/
namespace CivilTime

/-- The error of a reader of `cs`, located by characters instead of bytes. A place inside a character
keeps its number of bytes. -/
def TimeError.inChars (cs : List Char) (e : TimeError) : TimeError :=
  { e with
    position := e.position.map fun place => Text.charPosition (min place (Text.byteLength cs)) cs }

namespace Layout

def scanItem (layout : Layout) (context : ReadContext) (state : Fields × ByteCursor) (item : Item) :
    Except TimeError (Fields × ByteCursor) := do
  let (fields, cursor) := state
  match item with
  | .era =>
    let (common, cursor) ← cursor.name context.names.eraIndex .era
    return ({ fields with beforeCommonEra := !common.value }, cursor)
  | .year width =>
    let (year, cursor) ← cursor.year width context.window
    return ({ fields with year := some year }, cursor)
  | .number field width =>
    let (read, _, cursor) ← cursor.number width field.quantity
    return (fields.setNumber field read, cursor)
  | .hour cycle width =>
    let (hour, cursor) ← cursor.hour cycle width
    return ({ fields with hour := some (cycle, hour) }, cursor)
  | .monthName _ =>
    let (month, cursor) ← cursor.name context.names.monthIndex .monthName
    return (fields.setNumber .month ⟨month.value, month.position⟩, cursor)
  -- Weekdays are read, but not held against the date.
  | .weekdayName _ =>
    let (_, cursor) ← cursor.name context.names.weekdayIndex .weekdayName
    return (fields, cursor)
  | .weekday =>
    let cursor ← cursor.weekday
    return (fields, cursor)
  | .halfOfDay =>
    let (pm, cursor) ← cursor.name context.names.halfOfDayIndex .halfOfDay
    return ({ fields with pm := some pm.value }, cursor)
  | .zone =>
    let (zone, cursor) ← cursor.zone context
    return ({ fields with zone := some zone }, cursor)
  | .literal index =>
    let cursor ← cursor.literal (layout.literal index)
    return (fields, cursor)

/-- The instant that the unread part of a text gives, if all of it is read. -/
def scan (layout : Layout) (context : ReadContext) (start : ByteCursor) : Except TimeError Int := do
  let (fields, cursor) ← layout.items.foldlM (layout.scanItem context) ({}, start)
  if cursor.position < cursor.stop then
    cursor.reject .unexpectedInput
  else
    fields.instant start.position

/-- The instant that a span of a text gives, from the byte `start` up to the byte `stop`. Errors are
located in the whole text. -/
def parseSpan (layout : Layout) (context : ReadContext) (text : String) (start stop : Nat) :
    Except TimeError Int :=
  let cs := text.toList
  match Text.span? start stop cs with
  | some _ => (layout.scan context ⟨text, start, stop⟩).mapError (·.inChars cs)
  | none =>
    -- A span that starts past the end of the text is blamed at its end.
    let place := min start text.utf8ByteSize
    .error (TimeError.inChars cs { cause := .invalidSpan, position := some place })

def parse (layout : Layout) (context : ReadContext) (text : String) : Except TimeError Int :=
  layout.parseSpan context text 0 text.utf8ByteSize

end Layout
end CivilTime
