import CivilTime.Zone.Recurrence
import Mathlib

/-!
# Annual rules

What the check of a rule admits, and the transition of a rule where no clamp moves it.
-/
namespace CivilTime.Zone.AnnualRule

/-- The parts of a rule are in the ranges that its check allows. -/
structure Valid (rule : AnnualRule) : Prop where
  month : 1 ≤ rule.month ∧ rule.month ≤ 12
  monthDay : rule.monthDay ≠ 0 ∧ -28 ≤ rule.monthDay
  weekday : ∀ weekday ∈ rule.weekday, 1 ≤ weekday ∧ weekday ≤ 7
  endOfDay : rule.endOfDay = true → rule.time = 0

theorem validate_eq_ok_iff {rule : AnnualRule} :
    rule.validate = .ok () ↔ rule.Valid := by
  have weekdays : (rule.weekday.any fun weekday => weekday < 1 || 7 < weekday) = false ↔
      ∀ weekday ∈ rule.weekday, 1 ≤ weekday ∧ weekday ≤ 7 := by
    cases rule.weekday with
    | none => simp
    | some weekday =>
      simp
      omega
  unfold validate
  split_ifs with month monthDay weekday endOfDay
  · exact ⟨nofun, fun valid => by have := valid.month; omega⟩
  · exact ⟨nofun, fun valid => by have := valid.monthDay; omega⟩
  · exact ⟨nofun, fun valid => by
      rw [weekdays.mpr valid.weekday] at weekday
      cases weekday⟩
  · exact ⟨nofun, fun valid => absurd (valid.endOfDay endOfDay.1) endOfDay.2⟩
  · refine ⟨fun _ => ⟨by omega, by omega, weekdays.mp (by simpa using weekday), ?_⟩, fun _ => rfl⟩
    intro flagged
    by_contra late
    exact endOfDay ⟨flagged, late⟩

theorem localTransition_of_wall {rule : AnnualRule} {year : Year}
    (wall : rule.clock = .wall) (day : Representable (rule.day year * nsPerDay))
    (clock : Representable (rule.day year * nsPerDay + rule.time * nsPerSecond)) :
    rule.localTransition year = rule.day year * nsPerDay + rule.time * nsPerSecond := by
  have shift : rule.wallShift = 0 := by rw [wallShift, wall]
  rw [localTransition, shift, clamp_of_representable day, clamp_of_representable clock, Int.add_zero,
    clamp_of_representable clock]

/-- Offsets of at most so many seconds move the clock by at most twice as many. -/
theorem wallShift_within {rule : AnnualRule} {seconds : Int}
    (before : -seconds ≤ rule.offsetBefore ∧ rule.offsetBefore ≤ seconds)
    (standard : -seconds ≤ rule.standardOffset ∧ rule.standardOffset ≤ seconds) :
    -(2 * (seconds * nsPerSecond)) ≤ rule.wallShift ∧
      rule.wallShift ≤ 2 * (seconds * nsPerSecond) := by
  unfold wallShift AnnualRule.before AnnualRule.standard
  simp only [nsPerSecond]
  split <;> omega

end CivilTime.Zone.AnnualRule
