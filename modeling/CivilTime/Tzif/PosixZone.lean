import CivilTime.Tzif.Reader

/-!
# POSIX time zone strings

The form `name offset [name [offset],date[/time],date[/time]]`. Offsets are positive west of
Greenwich. Names are read but not kept.
-/
namespace CivilTime.Tzif

/-- A day of every year. -/
inductive SwitchDay where
  /-- A weekday (Sunday = 0) of a week of a month. Week 5 is the last one. -/
  | weekdayOfMonth (month week weekday : Nat)
  /-- The day of the year from 1, February 29th never being counted. -/
  | commonDay (day : Nat)
  /-- The day of the year from 0, February 29th being counted. -/
  | yearDay (day : Nat)
  deriving DecidableEq, Repr

structure SwitchDate where
  day : SwitchDay
  /-- Seconds after midnight. -/
  time : Int
  deriving DecidableEq, Repr

structure DaylightSaving where
  offset : Int
  start : SwitchDate
  finish : SwitchDate
  deriving DecidableEq, Repr

structure PosixZone where
  offset : Int
  daylight : Option DaylightSaving
  deriving DecidableEq, Repr

namespace PosixZone

open Reader

def isDigit (b : UInt8) : Bool := 0x30 ≤ b && b ≤ 0x39

def isLetter (b : UInt8) : Bool := (0x41 ≤ b && b ≤ 0x5A) || (0x61 ≤ b && b ≤ 0x7A)

abbrev plus : UInt8 := 0x2B
abbrev comma : UInt8 := 0x2C
abbrev minus : UInt8 := 0x2D
abbrev dot : UInt8 := 0x2E
abbrev slash : UInt8 := 0x2F
abbrev colon : UInt8 := 0x3A
abbrev less : UInt8 := 0x3C
abbrev greater : UInt8 := 0x3E

/-- Whether the text of the bytes has three bytes at least. Bytes that are not UTF-8 appear in it as
replacement characters, of which a single one has three bytes. -/
def isNameLong (bs : List UInt8) : Bool := 3 ≤ bs.length || !bs.toByteArray.validateUTF8

/-- Three letters at least, or bytes in angle brackets that are long enough and start with no
colon. -/
def name : Reader Unit := do
  if ← optional less then
    let bs ← takeWhile (· != greater)
    exactly greater
    guard (isNameLong bs ∧ bs.head? ≠ some colon)
  else
    let bs ← takeWhile isLetter
    guard (3 ≤ bs.length)

def number : Reader Nat := do
  let ds ← takeWhile isDigit
  guard (ds ≠ [])
  return ds.foldl (fun n d => n * 10 + (d.toNat - 0x30)) 0

def numberIn (least greatest : Nat) : Reader Nat := do
  let n ← number
  guard (least ≤ n ∧ n ≤ greatest)
  return n

/-- A colon and a number below 60, if a colon is next, and 0 otherwise. -/
def sixtieths : Reader Nat := do
  if ← optional colon then numberIn 0 59 else return 0

/-- A span of time in seconds. -/
def duration (maxHours : Nat) : Reader Int := do
  let negative ← optional minus
  if !negative then
    let _ ← optional plus
  let hours ← numberIn 0 maxHours
  let minutes ← sixtieths
  let seconds ← sixtieths
  let fraction : Int := minutes * 60 + seconds
  -- Minutes and seconds have the sign of the hours, so that they count forward after `-0`.
  if negative && hours != 0 then
    return -(hours * 3600 + fraction)
  else
    return hours * 3600 + fraction

def switchDay : Reader SwitchDay := do
  if ← optional 0x4D then
    let month ← numberIn 1 12
    exactly dot
    let week ← numberIn 1 5
    exactly dot
    let weekday ← numberIn 0 6
    return .weekdayOfMonth month week weekday
  else if ← optional 0x4A then
    return .commonDay (← numberIn 1 365)
  else
    return .yearDay (← numberIn 0 365)

/-- A day with a time, two o'clock unless given. -/
def switchDate : Reader SwitchDate := do
  let day ← switchDay
  let time ← if ← optional slash then duration 167 else pure 7200
  return ⟨day, time⟩

/-- Whether a byte can start an offset. -/
def startsOffset (b : UInt8) : Bool := b == plus || b == minus || isDigit b

def daylightSaving (standard : Int) : Reader DaylightSaving := do
  name
  -- Clocks are an hour ahead of the standard offset unless there is an offset of its own.
  let offset ← if (← peek).any startsOffset then duration 24 else pure (standard - 3600)
  exactly comma
  let start ← switchDate
  exactly comma
  let finish ← switchDate
  return ⟨offset, start, finish⟩

/-- A zone string at the front of the bytes. -/
def read : Reader PosixZone := do
  name
  let offset ← duration 24
  if (← peek).any fun b => isLetter b || b == less then
    return ⟨offset, some (← daylightSaving offset)⟩
  else
    return ⟨offset, none⟩

/-- The zone that a text starts with. -/
def ofText? (text : String) : Option PosixZone :=
  (read.run text.toUTF8.toList).map (·.1)

end PosixZone
end CivilTime.Tzif
