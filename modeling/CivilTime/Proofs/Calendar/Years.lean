import CivilTime.Calendar.DateTime
import Mathlib

/-!
# Years as intervals of days

The first days of the years ascend by the lengths of the years, so the years cut the days into
intervals, and the number of a day's year is the one whose interval holds the day. The linear
estimate is off by at most one year on every day, however far from the epoch.
-/
namespace CivilTime

/-- The days of the year. -/
def yearLength (number : Int) : Nat := if isLeapYear number then 366 else 365

/-- The days of `count` years on end, of which `first` is the earliest. -/
def daysOfYears (first : Int) : Nat → Nat
  | 0 => 0
  | count + 1 => daysOfYears first count + yearLength (first + count)

theorem isLeapYear_iff (number : Int) :
    isLeapYear number = true ↔ number % 4 = 0 ∧ (number % 100 ≠ 0 ∨ number % 400 = 0) := by
  simp [isLeapYear]

theorem leapYearsThrough_step (number : Int) :
    leapYearsThrough number = leapYearsThrough (number - 1) + (isLeapYear number).toNat := by
  have leap := isLeapYear_iff number
  unfold leapYearsThrough
  -- Each of the three quotients goes up by one exactly at the multiples of its divisor.
  cases h : isLeapYear number <;> simp only [h, Bool.toNat] at leap ⊢ <;> simp at leap ⊢ <;> omega

namespace Year

theorem firstDay_of (number : Int) :
    (of number).firstDay
      = 365 * (number - 1970) + leapYearsThrough (number - 1) - leapYearsThrough 1969 := by
  have step := leapYearsThrough_step number
  simp only [firstDay, of]
  omega

theorem firstDay_succ (number : Int) :
    (of (number + 1)).firstDay = (of number).firstDay + yearLength number := by
  have step := leapYearsThrough_step number
  rw [firstDay_of, firstDay_of, Int.add_sub_cancel, step, yearLength]
  cases isLeapYear number <;> simp <;> omega

theorem firstDay_strictMono : StrictMono fun number => (of number).firstDay := by
  apply strictMono_int_of_lt_succ
  intro number
  simp only [firstDay_succ, yearLength]
  split <;> omega

theorem firstDay_le_iff {a b : Int} : (of a).firstDay ≤ (of b).firstDay ↔ a ≤ b :=
  firstDay_strictMono.le_iff_le

theorem firstDay_lt_iff {a b : Int} : (of a).firstDay < (of b).firstDay ↔ a < b :=
  firstDay_strictMono.lt_iff_lt

theorem firstDay_add (first : Int) (count : Nat) :
    (of (first + count)).firstDay = (of first).firstDay + daysOfYears first count := by
  induction count with
  | zero => simp [daysOfYears]
  | succ count ih =>
    have step := firstDay_succ (first + count)
    rw [Int.natCast_succ, ← Int.add_assoc, step, ih, daysOfYears]
    omega

/-- First days count the years from the epoch, forward or backward. -/
theorem firstDay_eq_daysOfYears (number : Int) :
    (of number).firstDay
      = daysOfYears 1970 (number - 1970).toNat - daysOfYears number (1970 - number).toNat := by
  have epoch : (of 1970).firstDay = 0 := by decide
  -- One of the two sums is empty, on the side of the epoch that the year is not on.
  rcases Int.le_total 1970 number with later | earlier
  · have ahead := firstDay_add 1970 (number - 1970).toNat
    rw [show (1970 : Int) + (number - 1970).toNat = number by omega, epoch] at ahead
    rw [show (1970 - number).toNat = 0 by omega, ahead, daysOfYears]
    omega
  · have back := firstDay_add number (1970 - number).toNat
    rw [show number + ((1970 - number).toNat : Nat) = 1970 by omega, epoch] at back
    rw [show (number - 1970).toNat = 0 by omega, daysOfYears]
    omega

/-- The year of a day is the one whose interval holds the day. -/
theorem firstDay_numberOfDay (day : Int) :
    (of (numberOfDay day)).firstDay ≤ day ∧ day < (of (numberOfDay day + 1)).firstDay := by
  simp only [numberOfDay]
  split
  -- The estimate is a year ahead.
  · constructor
    · rw [firstDay_of] at *
      simp only [leapYearsThrough] at *
      omega
    · simpa using ‹_›
  · split
    -- The estimate is a year behind.
    · constructor
      · assumption
      · rw [firstDay_of] at *
        simp only [leapYearsThrough] at *
        omega
    · omega

theorem numberOfDay_eq_iff {day number : Int} :
    numberOfDay day = number ↔
      (of number).firstDay ≤ day ∧ day < (of (number + 1)).firstDay := by
  have holds := firstDay_numberOfDay day
  constructor
  · rintro rfl
    exact holds
  · rintro ⟨started, ended⟩
    have lower := firstDay_lt_iff.mp (Int.lt_of_le_of_lt holds.1 ended)
    have upper := firstDay_lt_iff.mp (Int.lt_of_le_of_lt started holds.2)
    omega

theorem le_numberOfDay_iff {day number : Int} :
    number ≤ numberOfDay day ↔ (of number).firstDay ≤ day := by
  have holds := firstDay_numberOfDay day
  constructor
  · intro after
    exact Int.le_trans (firstDay_le_iff.mpr after) holds.1
  · intro started
    have upper := firstDay_lt_iff.mp (Int.lt_of_le_of_lt started holds.2)
    omega

/-- The place of a day within its year. -/
theorem ofDay_day_bounds (day : Int) :
    0 ≤ day - (ofDay day).firstDay ∧ day - (ofDay day).firstDay < yearLength (ofDay day).number := by
  have holds := firstDay_numberOfDay day
  rw [firstDay_succ] at holds
  simp only [ofDay, of] at holds ⊢
  omega

end Year

/-! ### Years of instants -/

theorem le_yearOf_iff {n number : Int} :
    number ≤ (yearOf n).number ↔ (Year.of number).firstDay * nsPerDay ≤ n := by
  rw [yearOf, Year.ofDay, Year.of, Year.le_numberOfDay_iff, epochDay]
  exact Int.le_ediv_iff_mul_le (by decide)

theorem yearOf_lt_iff {n number : Int} :
    (yearOf n).number < number ↔ n < (Year.of number).firstDay * nsPerDay := by
  rw [← Int.not_le, ← Int.not_le, le_yearOf_iff]

theorem yearOf_number_eq_iff {n number : Int} :
    (yearOf n).number = number ↔
      (Year.of number).firstDay * nsPerDay ≤ n ∧ n < (Year.of (number + 1)).firstDay * nsPerDay := by
  rw [← le_yearOf_iff, ← yearOf_lt_iff]
  omega

theorem yearOf_mono {m n : Int} (ordered : m ≤ n) : (yearOf m).number ≤ (yearOf n).number := by
  rw [le_yearOf_iff]
  exact Int.le_trans (le_yearOf_iff.mp (Int.le_refl _)) ordered

theorem lt_of_yearOf_lt {m n : Int} (earlier : (yearOf m).number < (yearOf n).number) : m < n := by
  by_contra reversed
  have ordered := yearOf_mono (Int.not_lt.mp reversed)
  omega

/-- The years 1678 to 2261 are representable as a whole. -/
theorem representable_of_year {n : Int} (lower : 1678 ≤ (yearOf n).number)
    (upper : (yearOf n).number ≤ 2261) : Representable n := by
  have begun := le_yearOf_iff.mp lower
  have ended := yearOf_lt_iff.mp (Int.lt_add_one_of_le upper)
  have least : minNanos ≤ (Year.of 1678).firstDay * nsPerDay := by decide
  have greatest : (Year.of (2261 + 1)).firstDay * nsPerDay ≤ maxNanos := by decide
  exact ⟨by omega, by omega⟩

/-- Days near a year that is representable as a whole are representable as a whole too. -/
theorem representable_near_year {number : Int} (day time : Int) (lower : 1678 ≤ number)
    (upper : number ≤ 2261)
    (low : (Year.of number).firstDay ≤ day) (high : day ≤ (Year.of number).firstDay + 366)
    (short : -(7 * nsPerDay) ≤ time ∧ time ≤ 7 * nsPerDay) :
    Representable (day * nsPerDay + time) := by
  have begun := Year.firstDay_le_iff.mpr lower
  have ended := Year.firstDay_le_iff.mpr upper
  have least : minNanos ≤ ((Year.of 1678).firstDay - 7) * nsPerDay := by decide
  have greatest : ((Year.of 2261).firstDay + 373) * nsPerDay ≤ maxNanos := by decide
  simp only [nsPerDay, nsPerHour, nsPerMinute, nsPerSecond] at least greatest short ⊢
  exact ⟨by omega, by omega⟩

/-- Instants lie in the years 1677 to 2262. -/
theorem IsInstant.yearOf_bounds {n : Int} (h : IsInstant n) :
    1677 ≤ (yearOf n).number ∧ (yearOf n).number ≤ 2262 := by
  obtain ⟨lower, upper⟩ := h
  constructor
  · rw [le_yearOf_iff]
    have start : (Year.of 1677).firstDay * nsPerDay < minNanos := by decide
    omega
  · rw [← Int.lt_add_one_iff, yearOf_lt_iff]
    have stop : maxNanos < (Year.of (2262 + 1)).firstDay * nsPerDay := by decide
    omega

/-- The time, an instant or not, is in a year of four digits. -/
structure FourDigitYear (n : Int) : Prop where
  least : 1000 ≤ (yearOf n).number
  greatest : (yearOf n).number ≤ 9999

/-- This includes all times less than a day from an instant. -/
theorem IsInstant.fourDigitYear_add {n : Int} (h : IsInstant n) {d : Int} (lower : -nsPerDay < d)
    (upper : d < nsPerDay) : FourDigitYear (n + d) := by
  obtain ⟨first, last⟩ := h
  constructor
  · rw [le_yearOf_iff]
    have start : (Year.of 1000).firstDay * nsPerDay < minNanos - nsPerDay := by decide
    omega
  · rw [← Int.lt_add_one_iff, yearOf_lt_iff]
    have stop : maxNanos + nsPerDay < (Year.of (9999 + 1)).firstDay * nsPerDay := by decide
    omega

theorem IsInstant.fourDigitYear {n : Int} (h : IsInstant n) : FourDigitYear n := by
  have bounds := h.yearOf_bounds
  exact ⟨by omega, by omega⟩

/-- The mark of a missing instant is right in front of one. -/
theorem Representable.fourDigitYear {n : Int} (h : Representable n) : FourDigitYear n := by
  by_cases first : n = minNanos
  · have next : IsInstant (minNanos + 1) := by decide
    have back := next.fourDigitYear_add (d := -1) (by decide) (by decide)
    rwa [first]
  · exact (isInstant_iff.mpr ⟨h, first⟩).fourDigitYear

end CivilTime
