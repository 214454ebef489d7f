import CivilTime.Tzif.PosixZone

/-!
# TZif files

The binary form of zone data: a header and a block of transitions with 32-bit times and, unless the
version is the first, another header, a block with 64-bit times and a POSIX zone string for the time
after the last transition.
-/
namespace CivilTime.Tzif

/-- A kind of local time. The offset is in seconds, positive east of Greenwich. -/
structure LocalTimeType where
  offset : Int
  isDaylight : Bool
  deriving DecidableEq, Repr

structure Block where
  /-- Seconds since the epoch, ascending. -/
  transitionTimes : List Int
  /-- For each transition, the place of the type that starts there. -/
  transitionTypes : List Nat
  types : List LocalTimeType
  deriving DecidableEq, Repr

structure File where
  firstBlock : Block
  secondBlock : Option Block
  footer : Option PosixZone
  deriving DecidableEq, Repr

/-- The version and the numbers of parts that a block has. -/
structure Header where
  version : UInt8
  utCount : Nat
  standardCount : Nat
  leapCount : Nat
  timeCount : Nat
  typeCount : Nat
  charCount : Nat
  deriving DecidableEq, Repr

open Reader

/-- The bytes that every file starts with. -/
def magic : List UInt8 := [0x54, 0x5A, 0x69, 0x66]

def Header.read : Reader Header := do
  guard ((← bytes 4) = magic)
  let version ← byte
  guard (version ∈ [0x00, 0x32, 0x33])
  let _ ← bytes 15
  let utCount ← unsigned 4
  let standardCount ← unsigned 4
  let leapCount ← unsigned 4
  let timeCount ← unsigned 4
  let typeCount ← unsigned 4
  let charCount ← unsigned 4
  guard (typeCount ≠ 0 ∧ charCount ≠ 0)
  -- Indicators are given for every type or for none.
  guard (utCount = 0 ∨ utCount = typeCount)
  guard (standardCount = 0 ∨ standardCount = typeCount)
  return { version, utCount, standardCount, leapCount, timeCount, typeCount, charCount }

def flag : Reader Bool := do
  let b ← byte
  guard (b = 0 ∨ b = 1)
  return b = 1

def LocalTimeType.read (charCount : Nat) : Reader LocalTimeType := do
  let offset ← signed 4
  let isDaylight ← flag
  let name ← byte
  guard (offset ≠ -2147483648 ∧ name.toNat < charCount)
  return { offset, isDaylight }

/-- The time of a leap second and the total correction from there on. -/
def leapSecond (timeSize : Nat) : Reader (Int × Int) := do
  let time ← signed timeSize
  let correction ← signed 4
  return (time, correction)

/-- Whether leap seconds start after the epoch, are four weeks apart and change the correction by
one each. -/
def validLeapSeconds : List (Int × Int) → Bool
  | [] => true
  | (time, correction) :: later =>
    0 ≤ time && correction.natAbs = 1
      && (((time, correction) :: later).zip later).all fun ((t, c), (t', c')) =>
        2419199 ≤ t' - t && (c' - c).natAbs = 1

/-- The earliest time that a transition can have. -/
def earliestTime : Int := -576460752303423488

/-- A block with times of `timeSize` bytes. -/
def Block.read (timeSize : Nat) (header : Header) : Reader Block := do
  let transitionTimes ← times (signed timeSize) header.timeCount
  guard (∀ t ∈ transitionTimes, earliestTime ≤ t)
  guard (transitionTimes.Pairwise (· ≤ ·))
  let transitionTypes ← times (UInt8.toNat <$> byte) header.timeCount
  guard (∀ i ∈ transitionTypes, i < header.typeCount)
  let types ← times (LocalTimeType.read header.charCount) header.typeCount
  let _ ← bytes header.charCount
  let leapSeconds ← times (leapSecond timeSize) header.leapCount
  guard (validLeapSeconds leapSeconds)
  let _ ← times flag header.standardCount
  let _ ← times flag header.utCount
  return { transitionTimes, transitionTypes, types }

/-- The zone string on a line of its own after the blocks. -/
def footerZone : Reader PosixZone := do
  exactly 0x0A
  let zone ← PosixZone.read
  exactly 0x0A
  return zone

namespace File

def read : Reader File := do
  let header ← Header.read
  let firstBlock ← Block.read 4 header
  -- Only the first version ends with its block of 32-bit times.
  if header.version = 0 then
    return { firstBlock, secondBlock := none, footer := none }
  else
    let secondBlock ← Block.read 8 (← Header.read)
    return { firstBlock, secondBlock := some secondBlock, footer := some (← footerZone) }

def ofBytes? (bs : List UInt8) : Option File := (read.run bs).map (·.1)

/-- The block with the wider times. -/
def block (file : File) : Block := file.secondBlock.getD file.firstBlock

end File
end CivilTime.Tzif
