import CivilTime.Calendar.Addition
import CivilTime.Proofs.Calendar.Months
import CivilTime.Proofs.Instants

/-!
# Exactness of month additions

Adding months moves a civil time along the line of all months and keeps its day, or takes the last
day of a shorter month. Of the checks on the way only the last one decides: a month count or a year
too large for its type leads to no instant either. Years are added as twelve months each.
-/
namespace CivilTime

namespace DateTime

/-- The civil time whole months later, at the same time of day. A day past the end of the month
becomes its last day. -/
def monthsLater (t : DateTime) (months : Int) : DateTime :=
  let number := t.monthNumber + months
  let year := number / 12
  let month := (number % 12).toNat + 1
  { t with year, month, day := min t.day (daysInMonth (isLeapYear year) month) }

theorem monthNumber_monthsLater (t : DateTime) (months : Int) :
    (t.monthsLater months).monthNumber = t.monthNumber + months := by
  change 12 * ((t.monthNumber + months) / 12) + (((t.monthNumber + months) % 12).toNat + 1 : Nat) - 1
    = t.monthNumber + months
  omega

theorem day_monthsLater (t : DateTime) (months : Int) :
    (t.monthsLater months).day = min t.day (lengthOfMonth (t.monthNumber + months)) := rfl

/-- Only a shorter month changes the time of the month. -/
theorem timeOfMonth_monthsLater_le (t : DateTime) (months : Int) :
    (t.monthsLater months).timeOfMonth ≤ t.timeOfMonth := by
  have day : (t.monthsLater months).day ≤ t.day := Nat.min_le_left _ _
  have time : (t.monthsLater months).timeOfDay = t.timeOfDay := rfl
  simp only [timeOfMonth, time, nsPerDay, nsPerHour, nsPerMinute, nsPerSecond]
  omega

theorem timeOfMonth_monthsLater {t : DateTime} {months : Int}
    (kept : (t.monthsLater months).day = t.day) :
    (t.monthsLater months).timeOfMonth = t.timeOfMonth := by
  have time : (t.monthsLater months).timeOfDay = t.timeOfDay := rfl
  rw [timeOfMonth, timeOfMonth, kept, time]

namespace IsCivil

variable {t : DateTime}

theorem monthsLater (civil : t.IsCivil) (months : Int) : (t.monthsLater months).IsCivil := by
  have length := lengthOfMonth_ge (t.monthNumber + months)
  have first := civil.one_le_day
  constructor
  case one_le_month => exact Nat.le_add_left _ _
  case month_le =>
    change ((t.monthNumber + months) % 12).toNat + 1 ≤ 12
    omega
  case one_le_day =>
    rw [day_monthsLater]
    omega
  case day_le => exact Nat.min_le_right _ _
  case hour_le => exact civil.hour_le
  case minute_le => exact civil.minute_le
  case second_le => exact civil.second_le
  case nanosecond_lt => exact civil.nanosecond_lt

theorem monthsLater_zero (civil : t.IsCivil) : t.monthsLater 0 = t := by
  have year : (t.monthNumber + 0) / 12 = t.year := by
    rw [Int.add_zero, civil.monthNumber_div]
  have month : ((t.monthNumber + 0) % 12).toNat + 1 = t.month := by
    rw [Int.add_zero, civil.monthNumber_mod]
  simp only [DateTime.monthsLater, year, month, Nat.min_eq_left civil.day_le]

end IsCivil
end DateTime

section Additions

open DateTime

variable {n : Int}

/-- The year that a sum of months leads to, if that is an instant. -/
theorem year_monthsLater_bounds {months : Int}
    (instant : IsInstant ((ofInstant n).monthsLater months).count) :
    1677 ≤ ((ofInstant n).monthNumber + months) / 12 ∧
      ((ofInstant n).monthNumber + months) / 12 ≤ 2262 := by
  have bounds := instant.yearOf_bounds
  rw [((isCivil_ofInstant n).monthsLater months).yearOf_count] at bounds
  exact bounds

theorem addMonths_givesExactly (instant : IsInstant n) (months : Int) :
    GivesExactly (addMonths n months) ((ofInstant n).monthsLater months).count := by
  unfold addMonths
  split
  -- The shortcut agrees, as a civil time no months later is the same.
  next still =>
    rw [still, (isCivil_ofInstant n).monthsLater_zero, count_ofInstant]
    exact ⟨fun _ => rfl, fun outside => absurd instant outside⟩
  next =>
    have total : (Date.ofDay (epochDay n)).year.number * 12 + (Date.ofDay (epochDay n)).month - 1
        + months = (ofInstant n).monthNumber + months := by
      rw [Int.mul_comm]
      rfl
    simp only [total]
    split
    -- What the checks before the last one refuse is far outside the years of instants.
    next large =>
      refine .of_outside (fun reached => large ?_) ⟨_, rfl, rfl⟩
      have bounds := year_monthsLater_bounds reached
      unfold Representable minNanos maxNanos
      omega
    next =>
      split
      next far =>
        refine .of_outside (fun reached => far ?_) ⟨_, rfl, rfl⟩
        have bounds := year_monthsLater_bounds reached
        unfold IsYear minYear maxYear
        omega
      next =>
        rw [count_eq]
        have time : ((ofInstant n).monthsLater months).timeOfDay = timeOfDay n :=
          timeOfDay_ofInstant n
        rw [time]
        exact .asInstant _

theorem addYears_givesExactly (instant : IsInstant n) (years : Int) :
    GivesExactly (addYears n years) ((ofInstant n).monthsLater (12 * years)).count := by
  unfold addYears
  rw [Int.mul_comm 12]
  split
  · exact addMonths_givesExactly instant _
  next large =>
    refine .of_outside (fun reached => large ?_) ⟨_, rfl, rfl⟩
    have start := instant.yearOf_bounds
    have bounds := year_monthsLater_bounds reached
    have first := (isCivil_ofInstant n).monthNumber_div
    have year : (ofInstant n).year = (yearOf n).number := rfl
    unfold Representable minNanos maxNanos
    omega

/-- Adding months or years gives the instant on the date that the calendar counts to, with the day
held within its month, at the same time of day; if that is no instant, it fails. -/
theorem calendar_addition_exact {n : Int} (instant : IsInstant n) (amount : Int) :
    GivesExactly (addMonths n amount) ((ofInstant n).monthsLater amount).count ∧
    GivesExactly (addYears n amount) ((ofInstant n).monthsLater (12 * amount)).count ∧
    ∀ months, ofInstant ((ofInstant n).monthsLater months).count = (ofInstant n).monthsLater months :=
  ⟨addMonths_givesExactly instant amount, addYears_givesExactly instant amount,
    fun months => ((isCivil_ofInstant n).monthsLater months).ofInstant_count⟩

/-- A month after noon of 2020-01-31 it is noon of the leap day, and a year count too large for
months is refused. -/
theorem calendar_addition_exact_to_leap_day :
    IsInstant 1580472000000000000 ∧
      addMonths 1580472000000000000 1 = .ok 1582977600000000000 ∧
      ofInstant 1582977600000000000 = ⟨2020, 2, 29, 12, 0, 0, 0⟩ ∧
      FailsOutOfRange (addYears 1580472000000000000 maxNanos) := by
  have instant : IsInstant 1580472000000000000 := by decide
  have later : ((ofInstant 1580472000000000000).monthsLater 1).count = 1582977600000000000 := by
    rw [count_eq]
    decide
  have outside :
      ¬ IsInstant ((ofInstant 1580472000000000000).monthsLater (12 * maxNanos)).count := by
    rw [count_eq]
    decide
  obtain ⟨months, -, date⟩ := calendar_addition_exact instant 1
  obtain ⟨-, years, -⟩ := calendar_addition_exact instant maxNanos
  specialize date 1
  rw [later] at months date
  exact ⟨instant, months.count (by decide), date, years.refusal outside⟩

end Additions
end CivilTime
