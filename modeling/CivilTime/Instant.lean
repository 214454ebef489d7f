import CivilTime.Calendar.Addition
import CivilTime.Calendar.Difference
import CivilTime.Calendar.Rounding
import CivilTime.Layout.Standard

/-!
# Instants

A count of nanoseconds as a value of its own, which may be missing. A missing instant is shown as
nothing and takes part in no arithmetic.
-/
namespace CivilTime

structure Instant where
  nanos : Int
  deriving DecidableEq, Repr

namespace Instant

/-- Instants are in order of their counts, a missing one before all others. -/
instance : Ord Instant := ⟨fun i j => compare i.nanos j.nanos⟩

def absent : Instant := ⟨minNanos⟩

/-- The instant of a count other than the one that marks a missing instant. -/
def ofNanos (n : Int) : Except TimeError Instant :=
  if n = minNanos then fail .reserved else .ok ⟨n⟩

def isAbsent (i : Instant) : Bool := i.nanos = minNanos

def fields? (i : Instant) : Option DateTime :=
  if i.isAbsent then none else some (DateTime.ofInstant i.nanos)

/-- The count of an instant that is not missing. -/
def present (i : Instant) : Except TimeError Int :=
  if i.isAbsent then fail .absent else .ok i.nanos

def add (i : Instant) (unit : TimeUnit) (amount : Int) : Except TimeError Instant := do
  return ⟨← addUnits (← i.present) unit amount⟩

def floor (i : Instant) (unit : TimeUnit) : Except TimeError Instant := do
  return ⟨← floorTo (← i.present) unit⟩

def ceil (i : Instant) (unit : TimeUnit) : Except TimeError Instant := do
  return ⟨← ceilTo (← i.present) unit⟩

/-- Whole units between two instants, in either order. -/
def unitsUntil (i other : Instant) (unit : TimeUnit) : Except TimeError Int := do
  let a ← i.present
  let b ← other.present
  return unitsBetween a b unit

def toText (i : Instant) : String := StandardLayout.isoNanos.format i.nanos

/-- The length of the text, known without writing it. Years of instants have four digits. -/
def textLength (i : Instant) : Nat := if i.isAbsent then 0 else 30

def ofText (text : String) (catalogue : Zone.Catalogue := Zone.Bundled.catalogue) :
    Except TimeError Instant := do
  return ⟨← parseIso text catalogue⟩

end Instant
end CivilTime
