import CivilTime.Calendar.DateTime

/-!
# Two-digit years

A window of a hundred years around a reference year gives a two-digit year its century: it reaches
from 80 years before the reference to 19 years after it.
-/
namespace CivilTime

/-- Two-digit years below `limit` count from `base`, the others from the century before it. -/
structure YearWindow where
  limit : Int
  base : Int
  deriving DecidableEq, Repr

namespace YearWindow

/-- The window around the year `reference`. -/
def around (reference : Int) : YearWindow :=
  let offset := reference % 100
  -- A window that reaches into the next century counts its two-digit years from there.
  if 100 < offset + 20 then
    ⟨(offset + 20) % 100, reference - offset + 100⟩
  else
    ⟨offset + 20, reference - offset⟩

/-- The window around the year of an instant. -/
def aroundInstant (n : Int) : YearWindow := around (yearOf n).number

/-- The full year of a two-digit one, as a 32-bit number. -/
def expand (window : YearWindow) (year : Int) : Int :=
  let base := if year < window.limit then window.base else window.base - 100
  (base + year).bmod 4294967296

end YearWindow
end CivilTime
