import CivilTime.Nanos
import CivilTime.Text.Digits
import CivilTime.Text.Fold

/-!
# Offset literals

A UTC offset at the start of a text: `Z`, or hours of one or two digits with an optional sign,
optionally followed by two digits of minutes, with or without a colon between. `UTC` or `GMT`
may stand in front if a sign follows; alone they are no offset.
-/
namespace CivilTime.Zone

/-- Whether the text is `UTC` or `GMT`, in any case. -/
def isUtc (name : List Char) : Bool :=
  Text.fold name == ['u', 't', 'c'] || Text.fold name == ['g', 'm', 't']

def startsWithUtc (cs : List Char) : Bool := isUtc (cs.take 3)

/-- An offset in nanoseconds and the number of characters it was read from. -/
structure OffsetLiteral where
  offset : Int
  length : Nat
  deriving DecidableEq, Repr

namespace OffsetLiteral

/-- The minutes after the hours, and their length with the colon. -/
def minutes (cs : List Char) : Nat × Nat :=
  let colon := if cs.head? = some ':' then 1 else 0
  let ds := Text.leadingDigits 2 (cs.drop colon)
  -- A colon without two digits after it does not belong to the literal.
  if ds.length = 2 then (Text.digitsValue ds, colon + 2) else (0, 0)

/-- The literal whose hours start `cs`, after a sign and a name of `read` characters. -/
def magnitude (sign : Int) (read : Nat) (cs : List Char) : Option OffsetLiteral :=
  let ds := Text.leadingDigits 2 cs
  let hours := Text.digitsValue ds
  let (minutes, length) := minutes (cs.drop ds.length)
  if ds.isEmpty ∨ 23 < hours ∨ 59 < minutes then
    none
  else
    some ⟨sign * (hours * nsPerHour + minutes * nsPerMinute), read + ds.length + length⟩

/-- The literal that starts with a sign, after a name of `read` characters. -/
def signed? (read : Nat) : List Char → Option OffsetLiteral
  | '+' :: cs => magnitude 1 (read + 1) cs
  | '-' :: cs => magnitude (-1) (read + 1) cs
  | _ => none

/-- The offset literal at the start of a text. -/
def read? (cs : List Char) : Option OffsetLiteral :=
  if cs.head? = some 'Z' ∨ cs.head? = some 'z' then
    some ⟨0, 1⟩
  -- The name alone is no offset.
  else if startsWithUtc cs then
    signed? 3 (cs.drop 3)
  else if cs.head? = some '+' ∨ cs.head? = some '-' then
    signed? 0 cs
  else
    magnitude 1 0 cs

end OffsetLiteral
end CivilTime.Zone
