import CivilTime.TimeUnit
import CivilTime.Proofs.Calendar.Months

/-!
# Units as intervals of counts

Years, months, weeks and the units of one length all cut the line of counts into intervals, numbered
in order. The start of an interval is at or before a count exactly if its number is at most the one
of the interval that holds the count, so starts and numbers form a Galois connection. What rounding
needs follows from that alone: the greatest start up to a count, the least one behind it, and that a
start is the start of its own interval.
-/
namespace CivilTime

/-- The count is the first nanosecond of a unit: midnight at the start of January 1st, of the first
of a month or of a Monday, or a multiple of the length. -/
def StartsUnit (n : Int) : TimeUnit → Prop
  | .year => (DateTime.ofInstant n).month = 1 ∧ (DateTime.ofInstant n).day = 1 ∧ timeOfDay n = 0
  | .month => (DateTime.ofInstant n).day = 1 ∧ timeOfDay n = 0
  | .fixed .week => weekdayOf n = 1 ∧ timeOfDay n = 0
  | .fixed unit => unit.length ∣ n

/-- A count that the unit starts at: the epoch, or the Monday before it. -/
def FixedUnit.origin : FixedUnit → Int
  | week => -3 * nsPerDay
  | _ => 0

namespace TimeUnit

/-- The first nanosecond of an interval. -/
def start : TimeUnit → Int → Int
  | year, number => (Year.of number).firstDay * nsPerDay
  | month, number => firstDayOfMonth number * nsPerDay
  | fixed unit, number => number * unit.length + unit.origin

/-- The number of the interval that holds the count. -/
def number : TimeUnit → Int → Int
  | year, n => (yearOf n).number
  | month, n => (DateTime.ofInstant n).monthNumber
  | fixed unit, n => (n - unit.origin) / unit.length

/-- The last nanosecond of the interval that holds the count. -/
def lastOf (unit : TimeUnit) (n : Int) : Int := unit.start (unit.number n + 1) - 1

theorem start_number_connection (unit : TimeUnit) : GaloisConnection unit.start unit.number := by
  intro number n
  cases unit with
  | year => exact le_yearOf_iff.symm
  | month => exact DateTime.le_monthNumber_iff.symm
  | fixed unit =>
    rw [start, TimeUnit.number, Int.le_ediv_iff_mul_le unit.length_pos]
    omega

/-! ### Starts of units -/

section Starts

variable {n : Int}

theorem startsUnit_week_iff : StartsUnit n (.fixed .week) ↔ nsPerWeek ∣ n + 3 * nsPerDay := by
  simp only [StartsUnit, weekdayOf, weekdayOfDay, epochDay, timeOfDay, nsPerWeek, nsPerDay,
    nsPerHour, nsPerMinute, nsPerSecond]
  omega

theorem startsUnit_fixed_iff {unit : FixedUnit} :
    StartsUnit n (.fixed unit) ↔ unit.length ∣ n - unit.origin := by
  cases unit with
  | week =>
    rw [startsUnit_week_iff, FixedUnit.origin, FixedUnit.length, Int.neg_mul, Int.sub_neg]
  | _ =>
    change _ ↔ _ ∣ n - 0
    rw [Int.sub_zero]
    rfl

theorem startsUnit_month_iff : StartsUnit n .month ↔ (DateTime.ofInstant n).timeOfMonth = 0 := by
  have day := (DateTime.isCivil_ofInstant n).one_le_day
  have time := DateTime.timeOfDay_ofInstant n
  simp only [StartsUnit, DateTime.timeOfMonth, time, timeOfDay, nsPerDay, nsPerHour, nsPerMinute,
    nsPerSecond]
  omega

theorem startsUnit_year_iff : StartsUnit n .year ↔ (yearOf n).firstDay * nsPerDay = n := by
  have civil := Date.isCivil_ofDay (epochDay n)
  have place := Date.toDay_eq civil.one_le_day
  have count : epochDay n * nsPerDay + n % nsPerDay = n := Int.ediv_mul_add_emod n nsPerDay
  have time := Int.emod_nonneg n (show nsPerDay ≠ 0 by decide)
  have starts : StartsUnit n .year ↔ (Date.ofDay (epochDay n)).yearDay = 0 ∧ n % nsPerDay = 0 := by
    rw [civil.yearDay_eq_zero_iff, and_assoc]
    rfl
  have year : (Date.ofDay (epochDay n)).year = yearOf n := rfl
  -- The count is the first day of its year and a day of the year and a time of day on top.
  rw [Date.toDay_ofDay, year] at place
  rw [starts]
  simp only [nsPerDay, nsPerHour, nsPerMinute, nsPerSecond] at count time ⊢
  omega

/-- A count starts a unit if it is the start of the interval that holds it. -/
theorem startsUnit_iff {unit : TimeUnit} :
    StartsUnit n unit ↔ unit.start (unit.number n) = n := by
  cases unit with
  | year => exact startsUnit_year_iff
  | month =>
    have count := (DateTime.isCivil_ofInstant n).count_eq_month
    rw [DateTime.count_ofInstant] at count
    rw [startsUnit_month_iff, start, number]
    -- What is left of the count behind the first of its month is the time of the month.
    omega
  | fixed unit =>
    have parts := Int.ediv_mul_add_emod (n - unit.origin) unit.length
    rw [startsUnit_fixed_iff, start, number, Int.dvd_iff_emod_eq_zero]
    omega

/-- The greatest start up to a count. -/
theorem isGreatest_start (unit : TimeUnit) (n : Int) :
    IsGreatest {s | StartsUnit s unit ∧ s ≤ n} (unit.start (unit.number n)) := by
  have connection := unit.start_number_connection
  constructor
  · exact ⟨startsUnit_iff.mpr (connection.l_u_l_eq_l _), connection.l_u_le n⟩
  · rintro s ⟨starts, reached⟩
    rw [← startsUnit_iff.mp starts]
    exact connection.monotone_l (connection.monotone_u reached)

/-- The least start behind a count. -/
theorem isLeast_start (unit : TimeUnit) (n : Int) :
    IsLeast {s | StartsUnit s unit ∧ n < s} (unit.start (unit.number n + 1)) := by
  have connection := unit.start_number_connection
  constructor
  · exact ⟨startsUnit_iff.mpr (connection.l_u_l_eq_l _), connection.lt_iff_lt.mpr (Int.lt_succ _)⟩
  · rintro s ⟨starts, ahead⟩
    rw [← startsUnit_iff.mp starts] at ahead ⊢
    exact connection.monotone_l (Int.add_one_le_of_lt (connection.lt_iff_lt.mp ahead))

end Starts
end TimeUnit
end CivilTime
