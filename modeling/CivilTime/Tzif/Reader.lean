/-!
# Reading bytes

A reader takes bytes off the front of a list, or fails. Numbers are big-endian.
-/
namespace CivilTime.Tzif

abbrev Reader := StateT (List UInt8) Option

namespace Reader

def byte : Reader UInt8
  | [] => none
  | b :: bs => some (b, bs)

/-- The next `count` bytes. -/
def bytes (count : Nat) : Reader (List UInt8) := fun bs =>
  if count ≤ bs.length then some (bs.take count, bs.drop count) else none

/-- The next bytes that satisfy `p`, as far as they go. -/
def takeWhile (p : UInt8 → Bool) : Reader (List UInt8) := fun bs =>
  some (bs.takeWhile p, bs.dropWhile p)

/-- The next byte, left in place. There may be none. -/
def peek : Reader (Option UInt8) := fun bs => some (bs.head?, bs)

def exactly (expected : UInt8) : Reader Unit := do
  let b ← byte
  guard (b = expected)

/-- The given byte, if it is next, and whether it was. -/
def optional (expected : UInt8) : Reader Bool := do
  if (← peek) = some expected then
    let _ ← byte
    return true
  else
    return false

def unsigned (size : Nat) : Reader Nat := do
  let bs ← bytes size
  return bs.foldl (fun n b => n * 256 + b.toNat) 0

/-- A signed number of `size` bytes in two's complement. -/
def signed (size : Nat) : Reader Int := do
  let n ← unsigned size
  return (n : Int).bmod (Nat.pow 256 size)

/-- What the reader yields `count` times in a row. -/
def times {α : Type} (read : Reader α) : Nat → Reader (List α)
  | 0 => pure []
  | count + 1 => do
    let a ← read
    let as ← times read count
    return a :: as

end Reader
end CivilTime.Tzif
