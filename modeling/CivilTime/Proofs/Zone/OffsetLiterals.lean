import CivilTime.Proofs.Layout.Cursors
import CivilTime.Proofs.Zone.OffsetGrammar

/-!
# Offsets as a clock shows them

A sign, two digits of hours and two of minutes behind a colon are read as one offset literal of six
characters, whatever the text goes on with.
-/
namespace CivilTime.Zone

/-- An offset of less than a day, in whole minutes. -/
structure ClockOffset where
  behind : Bool
  hours : Nat
  minutes : Nat
  hours_le : hours ≤ 23
  minutes_le : minutes ≤ 59

namespace ClockOffset

/-- The offset in nanoseconds. -/
def offset (clock : ClockOffset) : Int :=
  let magnitude : Int := clock.hours * nsPerHour + clock.minutes * nsPerMinute
  if clock.behind then -magnitude else magnitude

/-- A sign, the hours and the minutes, as in `+05:30`. -/
def text (clock : ClockOffset) : String :=
  String.ofList ((if clock.behind then '-' else '+') :: (Text.digits clock.hours 2
    ++ ':' :: Text.digits clock.minutes 2))

theorem length_hours (clock : ClockOffset) : (Text.digits clock.hours 2).length = 2 := by
  have hours := clock.hours_le
  exact Text.length_digits (by decide) (by omega)

theorem length_minutes (clock : ClockOffset) : (Text.digits clock.minutes 2).length = 2 := by
  have minutes := clock.minutes_le
  exact Text.length_digits (by decide) (by omega)

theorem length_text (clock : ClockOffset) : clock.text.toList.length = 6 := by
  simp [text, clock.length_hours, clock.length_minutes]

theorem offset_bounds (clock : ClockOffset) : -nsPerDay < clock.offset ∧ clock.offset < nsPerDay := by
  have hours := clock.hours_le
  have minutes := clock.minutes_le
  simp only [offset, nsPerDay, nsPerHour, nsPerMinute, nsPerSecond]
  split <;> omega

end ClockOffset

namespace OffsetLiteral

/-- The text of an offset has all parts of a literal but a name. -/
def Parts.ofClock (clock : ClockOffset) (rest : List Char) : Parts where
  name := []
  sign := [if clock.behind then '-' else '+']
  hours := Text.digits clock.hours 2
  colon := [':']
  minutes := Text.digits clock.minutes 2
  rest := rest

theorem Parts.divide_ofClock (clock : ClockOffset) (rest : List Char) :
    (Parts.ofClock clock rest).Divide (clock.text.toList ++ rest) := by
  refine ⟨?_, .inl rfl, ?_, ?_⟩
  · simp [Parts.ofClock, Parts.read, ClockOffset.text]
  · cases ahead : clock.behind with
    | false => exact .inr (.inl (by simp [Parts.ofClock, ahead]))
    | true => exact .inr (.inr (by simp [Parts.ofClock, ahead]))
  · have digits : AreMinutes [':'] (Text.digits clock.minutes 2) :=
      ⟨.inr rfl, clock.length_minutes, fun _ => Text.isDigit_of_mem_digits⟩
    exact ⟨Text.digits_ne_nil _ _, fun _ => Text.isDigit_of_mem_digits,
      Nat.le_of_eq clock.length_hours,
      fun fewer => absurd clock.length_hours (Nat.ne_of_lt fewer), .inl digits⟩

/-- The text of an offset is read as the offset. -/
theorem read?_text (clock : ClockOffset) (rest : List Char) :
    read? (clock.text.toList ++ rest) = some ⟨clock.offset, 6⟩ := by
  have inRange : (Parts.ofClock clock rest).InRange := by
    simp only [Parts.InRange, Parts.ofClock, Text.digitsValue_digits]
    exact ⟨clock.hours_le, clock.minutes_le⟩
  have offset : (Parts.ofClock clock rest).offset = clock.offset := by
    simp only [Parts.offset, Parts.ofClock, Text.digitsValue_digits, ClockOffset.offset]
    cases clock.behind <;> simp [direction]
  have length : (Parts.ofClock clock rest).read.length = 6 := by
    simp [Parts.read, Parts.ofClock, clock.length_hours, clock.length_minutes]
  rw [(Parts.divide_ofClock clock rest).read?_eq, if_pos inRange, offset, length]

end OffsetLiteral
end CivilTime.Zone
