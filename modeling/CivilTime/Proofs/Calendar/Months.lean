import CivilTime.Calendar.Difference
import CivilTime.Proofs.Calendar.DateTimes

/-!
# Months of all years

Numbered on from January of year 0, the months of all years cut the days into intervals, as the
years do. A civil time is a month and a time since the first of it: the month decides first on the
order of civil times, and the time of the month decides within one month.
-/
namespace CivilTime

/-! ### Months as intervals of days -/

/-- The epoch day of the first of a month. -/
def firstDayOfMonth (number : Int) : Int :=
  Date.toDay ⟨Year.of (number / 12), (number % 12).toNat + 1, 1⟩

/-- The days of a month. -/
def lengthOfMonth (number : Int) : Nat :=
  daysInMonth (isLeapYear (number / 12)) ((number % 12).toNat + 1)

theorem lengthOfMonth_ge (number : Int) : 28 ≤ lengthOfMonth number :=
  daysInMonth_ge _ ⟨by omega, by omega⟩

theorem firstDayOfMonth_eq (number : Int) :
    firstDayOfMonth number
      = (Year.of (number / 12)).firstDay
        + daysBeforeMonth (isLeapYear (number / 12)) ((number % 12).toNat + 1) := by
  rw [firstDayOfMonth, Date.toDay]
  simp only [Year.of]
  omega

theorem firstDayOfMonth_succ (number : Int) :
    firstDayOfMonth (number + 1) = firstDayOfMonth number + lengthOfMonth number := by
  have ended := daysBeforeMonth_succ (isLeapYear (number / 12)) ((number % 12).toNat + 1)
  rw [firstDayOfMonth_eq, firstDayOfMonth_eq, lengthOfMonth]
  by_cases december : number % 12 = 11
  -- After December comes January of the next year.
  · have year : (number + 1) / 12 = number / 12 + 1 := by omega
    have january : ((number + 1) % 12).toNat = 0 := by omega
    have whole := daysBeforeMonth_thirteen (number / 12)
    have none : daysBeforeMonth (isLeapYear (number / 12 + 1)) (0 + 1) = 0 := rfl
    rw [december] at ended ⊢
    simp only [Int.reduceToNat, Nat.reduceAdd] at ended ⊢
    rw [year, january, none, Year.firstDay_succ, ← whole, ended]
    omega
  -- Otherwise the days before the month grow within the year.
  · have year : (number + 1) / 12 = number / 12 := by omega
    have month : ((number + 1) % 12).toNat = (number % 12).toNat + 1 := by omega
    rw [year, month, ended]
    omega

theorem firstDayOfMonth_strictMono : StrictMono firstDayOfMonth := by
  apply strictMono_int_of_lt_succ
  intro number
  have length := lengthOfMonth_ge number
  rw [firstDayOfMonth_succ]
  omega

namespace DateTime

/-! ### Civil times by month -/

/-- The number of the month, from January of year 0 on. -/
def monthNumber (t : DateTime) : Int := 12 * t.year + t.month - 1

/-- Nanoseconds since the first of the month. -/
def timeOfMonth (t : DateTime) : Int := ((t.day : Int) - 1) * nsPerDay + t.timeOfDay

namespace IsCivil

variable {t u : DateTime}

theorem monthNumber_div (civil : t.IsCivil) : t.monthNumber / 12 = t.year := by
  have least := civil.one_le_month
  have greatest := civil.month_le
  rw [monthNumber]
  omega

theorem monthNumber_mod (civil : t.IsCivil) : (t.monthNumber % 12).toNat + 1 = t.month := by
  have least := civil.one_le_month
  have greatest := civil.month_le
  rw [monthNumber]
  omega

theorem day_le_lengthOfMonth (civil : t.IsCivil) : t.day ≤ lengthOfMonth t.monthNumber := by
  rw [lengthOfMonth, civil.monthNumber_div, civil.monthNumber_mod]
  exact civil.day_le

theorem toDay_date_eq (civil : t.IsCivil) :
    t.date.toDay = firstDayOfMonth t.monthNumber + (t.day - 1) := by
  rw [firstDayOfMonth, civil.monthNumber_div, civil.monthNumber_mod, Date.toDay, Date.toDay]
  simp only [DateTime.date]
  omega

theorem count_eq_month (civil : t.IsCivil) :
    t.count = firstDayOfMonth t.monthNumber * nsPerDay + t.timeOfMonth := by
  rw [count_eq, civil.toDay_date_eq, timeOfMonth]
  ring

theorem timeOfMonth_bounds (civil : t.IsCivil) :
    0 ≤ t.timeOfMonth ∧ t.timeOfMonth < lengthOfMonth t.monthNumber * nsPerDay := by
  have first := civil.one_le_day
  have last := civil.day_le_lengthOfMonth
  have time := civil.timeOfDay_bounds
  simp only [timeOfMonth, nsPerDay, nsPerHour, nsPerMinute, nsPerSecond] at time ⊢
  omega

/-- A month ends before the next one starts. -/
theorem count_lt_of_monthNumber_lt (left : t.IsCivil) (right : u.IsCivil)
    (earlier : t.monthNumber < u.monthNumber) : t.count < u.count := by
  have ended := left.timeOfMonth_bounds.2
  have begun := right.timeOfMonth_bounds.1
  have following := firstDayOfMonth_succ t.monthNumber
  have ordered := firstDayOfMonth_strictMono.monotone (Int.add_one_le_of_lt earlier)
  rw [left.count_eq_month, right.count_eq_month]
  simp only [nsPerDay, nsPerHour, nsPerMinute, nsPerSecond] at ended ⊢
  omega

/-- The month decides on the order, and within one month the time of the month. -/
theorem count_le_iff (left : t.IsCivil) (right : u.IsCivil) :
    t.count ≤ u.count ↔
      t.monthNumber < u.monthNumber ∨
        t.monthNumber = u.monthNumber ∧ t.timeOfMonth ≤ u.timeOfMonth := by
  rcases Int.lt_trichotomy t.monthNumber u.monthNumber with earlier | same | later
  · have before := left.count_lt_of_monthNumber_lt right earlier
    omega
  -- Both counts are from the first of the same month.
  · rw [left.count_eq_month, right.count_eq_month, same]
    omega
  · have after := right.count_lt_of_monthNumber_lt left later
    omega

end IsCivil

/-! ### Months of instants -/

theorem toDay_firstOfMonth (n : Int) :
    { Date.ofDay (epochDay n) with day := 1 : Date }.toDay
      = firstDayOfMonth (ofInstant n).monthNumber := by
  have civil := isCivil_ofInstant n
  rw [firstDayOfMonth, civil.monthNumber_div, civil.monthNumber_mod]
  rfl

theorem timeOfMonth_ofInstant (n : Int) :
    (ofInstant n).timeOfMonth = CivilTime.timeOfMonth n := by
  have day := (isCivil_ofInstant n).toDay_date_eq
  have time := timeOfDay_ofInstant n
  rw [toDay_date_ofInstant] at day
  rw [timeOfMonth, CivilTime.timeOfMonth, toDay_firstOfMonth, time, CivilTime.timeOfDay, day]
  ring

/-- The months cut the counts as they cut the days. -/
theorem le_monthNumber_iff {n number : Int} :
    number ≤ (ofInstant n).monthNumber ↔ firstDayOfMonth number * nsPerDay ≤ n := by
  have civil := isCivil_ofInstant n
  have count := civil.count_eq_month
  have bounds := civil.timeOfMonth_bounds
  have following := firstDayOfMonth_succ (ofInstant n).monthNumber
  rw [count_ofInstant] at count
  simp only [nsPerDay, nsPerHour, nsPerMinute, nsPerSecond] at count bounds ⊢
  constructor
  · intro reached
    have ordered := firstDayOfMonth_strictMono.monotone reached
    omega
  -- A month that has started is before the month after the one that holds the count.
  · intro started
    have ordered : firstDayOfMonth number < firstDayOfMonth ((ofInstant n).monthNumber + 1) := by
      omega
    exact Int.le_of_lt_add_one (firstDayOfMonth_strictMono.lt_iff_lt.mp ordered)

end DateTime
end CivilTime
