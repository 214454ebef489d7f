import CivilTime.Layout.Fields
import CivilTime.Text.Bytes
import CivilTime.Text.Span
import CivilTime.Zone.OffsetLiteral

/-!
# Cursors

A cursor is the unread part of a span of a text, given by offsets into the UTF-8 form of the whole
text. Readers take a cursor and give a value with the cursor after it, or fail at the byte that they
could not use.
-/
namespace CivilTime

structure ByteCursor where
  text : String
  position : Nat
  stop : Nat
  deriving DecidableEq, Repr

namespace ByteCursor

/-- The unread characters. There are none if one of the ends is not between characters. -/
def rest (cursor : ByteCursor) : List Char :=
  match Text.span? cursor.position cursor.stop cursor.text.toList with
  | some (_, inside) => inside
  | none => []

/-- The unread bytes. -/
def bytes (cursor : ByteCursor) : List UInt8 :=
  let all := Text.utf8 cursor.text.toList
  if cursor.position ≤ cursor.stop ∧ cursor.stop ≤ all.length then
    (all.drop cursor.position).take (cursor.stop - cursor.position)
  else
    []

def advance (cursor : ByteCursor) (count : Nat) : ByteCursor :=
  { cursor with position := cursor.position + count }

/-- Fails at the next byte. -/
def reject {α : Type} (cursor : ByteCursor) (cause : Cause) : Except TimeError α :=
  .error { cause, position := some cursor.position }

/-- Fails at the next byte, where something else was expected. -/
def mismatch {α : Type} (cursor : ByteCursor) (what : Expectation) : Except TimeError α :=
  cursor.reject (.expected what)

/-! ### Numbers -/

/-- Takes up so many more digits behind `length` others that denote `value`. The value is kept in 64
bits, without a check. The error is the number of digits in front of a missing one. -/
def fixedDigits (value : Int) (length : Nat) : Nat → List UInt8 → Except Nat Int
  | 0, _ => .ok value
  | count + 1, bytes =>
    match bytes.head?.bind Text.digit? with
    | some digit =>
      let next := (value * 10 + digit).bmod 18446744073709551616
      fixedDigits next (length + 1) count bytes.tail
    | none => .error length

/-- Takes up all digits that come next, behind `length` others that denote `value`, and gives the
value with the number of digits, if no step leaves 64 bits. -/
def greedyDigits (value : Int) (length : Nat) : List UInt8 → Option (Int × Nat)
  | [] => some (value, length)
  | byte :: bytes =>
    match Text.digit? byte with
    | some digit =>
      let tenfold := value * 10
      let next := tenfold + digit
      if Representable tenfold ∧ Representable next then
        greedyDigits next (length + 1) bytes
      else
        none
    | none => some (value, length)

/-- The next number and how many digits it has, with the cursor after it.

Exactly so many digits are required of a fixed width, and a missing one is the error. A greedy number
has all digits there are, at least one, and has to fit 64 bits. -/
def number (cursor : ByteCursor) (width : Width) (quantity : Quantity) :
    Except TimeError (Located Int × Nat × ByteCursor) :=
  match width with
  | .fixed count =>
    match fixedDigits 0 0 count cursor.bytes with
    | .ok value => .ok (⟨value, cursor.position⟩, count, cursor.advance count)
    | .error length => (cursor.advance length).mismatch (.digits quantity)
  | .greedy =>
    match greedyDigits 0 0 cursor.bytes with
    | some (value, length) =>
      if length = 0 then
        cursor.mismatch (.digits quantity)
      else
        .ok (⟨value, cursor.position⟩, length, cursor.advance length)
    | none => cursor.reject (.numberTooLarge quantity)

def year (cursor : ByteCursor) (width : Width) (window : YearWindow) :
    Except TimeError (Located Int × ByteCursor) := do
  let negative := cursor.rest.head? = some '-'
  let start := if negative then cursor.advance 1 else cursor
  let (read, length, after) ← start.number width .year
  -- A year without a sign is expanded from two digits, also where the width does not say two.
  let twoDigits := width == .fixed 2 || (width == .greedy && length == 2)
  let value :=
    if negative then -read.value
    else if twoDigits then window.expand read.value
    else read.value
  return (⟨value, cursor.position⟩, after)

/-- The next hour as counted by the cycle, midnight or noon being 0. -/
def hour (cursor : ByteCursor) (cycle : HourCycle) (width : Width) :
    Except TimeError (Located Int × ByteCursor) := do
  let (read, _, after) ← cursor.number width .hour
  if (cycle.least : Int) ≤ read.value ∧ read.value ≤ cycle.greatest then
    return ({ read with value := if read.value = cycle.length then 0 else read.value }, after)
  else
    cursor.reject (.outOfRange .hour)

/-- The next digit, which has to number a weekday. -/
def weekday (cursor : ByteCursor) : Except TimeError ByteCursor := do
  let (read, _, after) ← cursor.number (.fixed 1) .weekday
  if 1 ≤ read.value ∧ read.value ≤ 7 then
    return after
  else
    cursor.reject (.outOfRange .weekday)

/-! ### Texts -/

/-- The value of the longest name that comes next, with the cursor after the name. -/
def name {α : Type} (cursor : ByteCursor) (index : Locale.NameIndex α) (what : Expectation) :
    Except TimeError (Located α × ByteCursor) :=
  match index.longest? cursor.rest with
  | some found => .ok (⟨found.value, cursor.position⟩, cursor.advance found.bytes)
  | none => cursor.mismatch what

def literal (cursor : ByteCursor) (text : String) : Except TimeError ByteCursor :=
  if text.toList.isPrefixOf cursor.rest then
    .ok (cursor.advance text.utf8ByteSize)
  else
    cursor.mismatch (.literal text)

/-- The next zone: an offset literal, the name of a zone, or `UTC` or `GMT` alone. -/
def zone (cursor : ByteCursor) (context : ReadContext) :
    Except TimeError (Located ZoneReading × ByteCursor) :=
  match Zone.OffsetLiteral.read? cursor.rest with
  | some literal =>
    .ok (⟨.offset literal.offset, cursor.position⟩, cursor.advance literal.length)
  | none =>
    match context.zoneNames.zoneIndex.longest? cursor.rest with
    | some found => do
      let timeline ← locate cursor.position (context.timeline found.value)
      return (⟨.timeline timeline, cursor.position⟩, cursor.advance found.bytes)
    | none =>
      let name := (Text.splitAtByte 3 cursor.rest).map (·.1)
      if name.any Zone.isUtc then
        .ok (⟨.offset 0, cursor.position⟩, cursor.advance 3)
      else
        cursor.mismatch .zone

end ByteCursor
end CivilTime
