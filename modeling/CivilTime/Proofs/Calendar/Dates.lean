import CivilTime.Proofs.Calendar.Years

/-!
# Dates and epoch days

The months cut a year as the years cut the days. So civil dates and epoch days correspond one to
one, and the look-up of the month by `day / 31` needs its correction at most once.
-/
namespace CivilTime

/-! ### Months as intervals of the days of a year -/

theorem daysBeforeMonth_succ (leap : Bool) (month : Nat) :
    daysBeforeMonth leap (month + 1) = daysBeforeMonth leap month + daysInMonth leap month := rfl

theorem daysInMonth_le (leap : Bool) (month : Nat) : daysInMonth leap month ≤ 31 := by
  unfold daysInMonth
  cases leap <;> split <;> decide

theorem daysBeforeMonth_mono (leap : Bool) : Monotone (daysBeforeMonth leap) := by
  apply monotone_nat_of_le_succ
  intro month
  rw [daysBeforeMonth_succ]
  exact Nat.le_add_right _ _

theorem daysInMonth_of_leap (leap : Bool) (month : Nat) :
    daysInMonth leap month
      = daysInMonth false month + if leap = true ∧ month = 2 then 1 else 0 := by
  cases leap with
  | false => simp
  | true =>
    by_cases february : month = 2
    · simp [february, daysInMonth]
    · unfold daysInMonth
      split <;> simp_all

/-- A leap year is a day ahead of a common one from March on. -/
theorem daysBeforeMonth_of_leap (leap : Bool) (month : Nat) :
    daysBeforeMonth leap month
      = daysBeforeMonth false month + if leap = true ∧ 2 < month then 1 else 0 := by
  cases leap with
  | false => simp
  | true =>
    induction month with
    | zero => rfl
    | succ month ih =>
      have length := daysInMonth_of_leap true month
      rw [daysBeforeMonth_succ, daysBeforeMonth_succ, ih, length]
      simp only [true_and]
      split_ifs <;> omega

theorem daysInMonth_ge (leap : Bool) {month : Nat} (range : 1 ≤ month ∧ month ≤ 12) :
    28 ≤ daysInMonth leap month := by
  obtain ⟨lower, upper⟩ := range
  interval_cases month <;> cases leap <;> decide

/-- A leap year is at most one day ahead of a common one. -/
theorem daysBeforeMonth_leap (leap : Bool) (month : Nat) :
    daysBeforeMonth false month ≤ daysBeforeMonth leap month ∧
      daysBeforeMonth leap month ≤ daysBeforeMonth false month + if 2 < month then 1 else 0 := by
  have moved := daysBeforeMonth_of_leap leap month
  split_ifs at * <;> omega

/-- All twelve months make the year. -/
theorem daysBeforeMonth_thirteen (number : Int) :
    daysBeforeMonth (isLeapYear number) 13 = yearLength number := by
  rw [yearLength]
  cases isLeapYear number <;> rfl

/-- Months are at most 31 days long, and of three of them at least one day more than 31 belongs to
the first two. -/
theorem daysBeforeMonth_near (leap : Bool) (k : Nat) (h : k < 11) :
    daysBeforeMonth leap (k + 1) ≤ 31 * k ∧
      31 * (k + 1) ≤ daysBeforeMonth leap (k + 1 + 1 + 1) := by
  revert k
  cases leap <;> decide

/-- The month of a day of the year is the one whose interval holds the day. -/
theorem monthOfYearDay_bounds {leap : Bool} {day : Nat} (h : day < daysBeforeMonth leap 13) :
    daysBeforeMonth leap (monthOfYearDay leap day) ≤ day ∧
      day < daysBeforeMonth leap (monthOfYearDay leap day + 1) := by
  have short : daysBeforeMonth leap 13 ≤ 366 := by cases leap <;> decide
  simp only [monthOfYearDay]
  by_cases late : day / 31 < 11
  -- The estimate is the month or the one before it, which the comparison tells apart.
  · have near := daysBeforeMonth_near leap (day / 31) late
    rw [Nat.min_eq_left (by omega)]
    split
    · exact ⟨by assumption, by omega⟩
    · exact ⟨by omega, by omega⟩
  -- Only the end of December is estimated past the year.
  · have start : daysBeforeMonth leap 12 ≤ 341 := by cases leap <;> decide
    rw [Nat.min_eq_right (by omega)]
    simp only [Nat.reduceAdd]
    rw [if_neg (by omega)]
    exact ⟨by omega, h⟩

theorem monthOfYearDay_range {leap : Bool} {day : Nat} (h : day < daysBeforeMonth leap 13) :
    1 ≤ monthOfYearDay leap day ∧ monthOfYearDay leap day ≤ 12 := by
  have bounds := monthOfYearDay_bounds h
  constructor
  · simp only [monthOfYearDay]
    split <;> omega
  · by_contra beyond
    have := daysBeforeMonth_mono leap (show 13 ≤ monthOfYearDay leap day by omega)
    omega

theorem monthOfYearDay_eq {leap : Bool} {day month : Nat}
    (started : daysBeforeMonth leap month ≤ day)
    (ended : day < daysBeforeMonth leap (month + 1)) (h : month ≤ 12) :
    monthOfYearDay leap day = month := by
  have whole := daysBeforeMonth_mono leap (show month + 1 ≤ 13 by omega)
  have bounds := monthOfYearDay_bounds (Nat.lt_of_lt_of_le ended whole)
  rcases Nat.lt_trichotomy (monthOfYearDay leap day) month with earlier | same | later
  · have := daysBeforeMonth_mono leap (Nat.succ_le_of_lt earlier)
    simp only [Nat.succ_eq_add_one] at this
    omega
  · exact same
  · have := daysBeforeMonth_mono leap (Nat.succ_le_of_lt later)
    simp only [Nat.succ_eq_add_one] at this
    omega

/-! ### Civil dates -/

namespace Date

/-- The date is one of the calendar. -/
structure IsCivil (date : Date) : Prop where
  year : date.year = Year.of date.year.number
  one_le_month : 1 ≤ date.month
  month_le : date.month ≤ 12
  one_le_day : 1 ≤ date.day
  day_le : date.day ≤ daysInMonth date.year.leap date.month

/-- The day of the year of a civil date, from 0. -/
def yearDay (date : Date) : Nat := daysBeforeMonth date.year.leap date.month + date.day - 1

theorem IsCivil.yearDay_bounds {date : Date} (h : date.IsCivil) :
    daysBeforeMonth date.year.leap date.month ≤ date.yearDay ∧
      date.yearDay < daysBeforeMonth date.year.leap (date.month + 1) := by
  have first := h.one_le_day
  have last := h.day_le
  rw [daysBeforeMonth_succ, yearDay]
  omega

theorem IsCivil.yearDay_lt {date : Date} (h : date.IsCivil) :
    date.yearDay < yearLength date.year.number := by
  have whole := daysBeforeMonth_mono date.year.leap (show date.month + 1 ≤ 13 from
    Nat.succ_le_succ h.month_le)
  have leap : date.year.leap = isLeapYear date.year.number := congrArg Year.leap h.year
  rw [← daysBeforeMonth_thirteen, ← leap]
  exact Nat.lt_of_lt_of_le h.yearDay_bounds.2 whole

theorem IsCivil.yearDay_eq_zero_iff {date : Date} (h : date.IsCivil) :
    date.yearDay = 0 ↔ date.month = 1 ∧ date.day = 1 := by
  have first := h.one_le_day
  have january : daysBeforeMonth date.year.leap 1 = 0 := rfl
  rw [yearDay]
  rcases Nat.eq_or_lt_of_le h.one_le_month with same | later
  · rw [← same, january]
    omega
  -- From February on there are the days of January before.
  · have passed := daysBeforeMonth_mono date.year.leap (Nat.succ_le_of_lt later)
    have february : daysBeforeMonth date.year.leap (Nat.succ 1) = 31 := rfl
    omega

theorem toDay_eq {date : Date} (h : 1 ≤ date.day) :
    date.toDay = date.year.firstDay + date.yearDay := by
  rw [toDay, yearDay]
  omega

/-- A civil date is the date of its epoch day. -/
theorem IsCivil.ofDay_toDay {date : Date} (h : date.IsCivil) : ofDay date.toDay = date := by
  have place := toDay_eq h.one_le_day
  have first : date.year.firstDay = (Year.of date.year.number).firstDay :=
    congrArg Year.firstDay h.year
  have number : Year.numberOfDay date.toDay = date.year.number := by
    have within := h.yearDay_lt
    rw [Year.numberOfDay_eq_iff, Year.firstDay_succ]
    omega
  have year : Year.ofDay date.toDay = date.year := by
    rw [Year.ofDay, number, ← h.year]
  -- From here on the look-up runs on the day of the year, as the date counts it.
  have inside : (date.toDay - date.year.firstDay).toNat = date.yearDay := by omega
  have month : monthOfYearDay date.year.leap date.yearDay = date.month :=
    monthOfYearDay_eq h.yearDay_bounds.1 h.yearDay_bounds.2 h.month_le
  have day : date.yearDay - daysBeforeMonth date.year.leap date.month + 1 = date.day := by
    have := h.one_le_day
    rw [yearDay]
    omega
  simp only [ofDay, year, inside, month, day]

/-- The day of the year that the date of an epoch day is read from. -/
theorem ofDay_yearDay_lt (day : Int) :
    (day - (Year.ofDay day).firstDay).toNat < daysBeforeMonth (Year.ofDay day).leap 13 := by
  have within := Year.ofDay_day_bounds day
  rw [← daysBeforeMonth_thirteen] at within
  have leap : (Year.ofDay day).leap = isLeapYear (Year.ofDay day).number := rfl
  rw [leap]
  omega

theorem isCivil_ofDay (day : Int) : (ofDay day).IsCivil := by
  have bounds := monthOfYearDay_bounds (ofDay_yearDay_lt day)
  have range := monthOfYearDay_range (ofDay_yearDay_lt day)
  rw [daysBeforeMonth_succ] at bounds
  constructor
  · rfl
  · exact range.1
  · exact range.2
  · exact Nat.le_add_left _ _
  · simp only [ofDay]
    omega

theorem toDay_ofDay (day : Int) : (ofDay day).toDay = day := by
  have within := (Year.ofDay_day_bounds day).1
  have started := (monthOfYearDay_bounds (ofDay_yearDay_lt day)).1
  simp only [ofDay, toDay]
  omega

/-! ### Months and leap days among the epoch days -/

/-- The day is in this month of this year. -/
def InMonth (number : Int) (month : Nat) (day : Int) : Prop :=
  (ofDay day).year.number = number ∧ (ofDay day).month = month

instance (number : Int) (month : Nat) (day : Int) : Decidable (InMonth number month day) :=
  inferInstanceAs (Decidable (_ ∧ _))

/-- The day is February 29th. -/
def IsLeapDay (day : Int) : Prop := (ofDay day).month = 2 ∧ (ofDay day).day = 29

instance (day : Int) : Decidable (IsLeapDay day) := inferInstanceAs (Decidable (_ ∧ _))

/-- The months cut the days of a year. -/
theorem inMonth_iff (number day : Int) {month : Nat} (range : 1 ≤ month ∧ month ≤ 12) :
    InMonth number month day ↔
      (Year.of number).firstDay + daysBeforeMonth (isLeapYear number) month ≤ day ∧
        day < (Year.of number).firstDay + daysBeforeMonth (isLeapYear number) (month + 1) := by
  constructor
  · rintro ⟨rfl, rfl⟩
    have civil := isCivil_ofDay day
    have place := toDay_eq civil.one_le_day
    have bounds := civil.yearDay_bounds
    have year : (ofDay day).year = Year.of (ofDay day).year.number := civil.year
    rw [toDay_ofDay] at place
    rw [← year]
    change _ + (daysBeforeMonth (ofDay day).year.leap _ : Int) ≤ _ ∧
      _ < _ + (daysBeforeMonth (ofDay day).year.leap _ : Int)
    omega
  · rintro ⟨started, ended⟩
    have whole := daysBeforeMonth_mono (isLeapYear number) (show month + 1 ≤ 13 by omega)
    rw [daysBeforeMonth_thirteen] at whole
    have inYear : Year.numberOfDay day = number := by
      rw [Year.numberOfDay_eq_iff, Year.firstDay_succ]
      omega
    have month : monthOfYearDay (isLeapYear number) (day - (Year.of number).firstDay).toNat
        = month := monthOfYearDay_eq (by omega) (by omega) range.2
    exact ⟨inYear, by simp only [ofDay, Year.ofDay, inYear]; exact month⟩

/-- In a leap year, 59 days come before the leap day. -/
theorem isLeapDay_iff {number day : Int} (inYear : (Year.ofDay day).number = number) :
    IsLeapDay day ↔ isLeapYear number = true ∧ day = (Year.of number).firstDay + 59 := by
  have february := inMonth_iff number day (show 1 ≤ 2 ∧ 2 ≤ 12 by decide)
  have place := toDay_ofDay day
  have year : (ofDay day).year = Year.of number := congrArg Year.of inYear
  have leap : (Year.of number).leap = isLeapYear number := rfl
  have one := (isCivil_ofDay day).one_le_day
  have before : (daysBeforeMonth (isLeapYear number) 2 : Int) = 31 := by
    cases isLeapYear number <;> rfl
  have after : (daysBeforeMonth (isLeapYear number) 3 : Int)
      = if isLeapYear number = true then 60 else 59 := by
    cases isLeapYear number <;> rfl
  rw [toDay, year, leap] at place
  rw [before, after] at february
  constructor
  · rintro ⟨second, last⟩
    have bounds := february.mp ⟨inYear, second⟩
    rw [second, before, last] at place
    split_ifs at bounds with leapYear
    · exact ⟨leapYear, by omega⟩
    · omega
  · rintro ⟨leapYear, same⟩
    rw [if_pos leapYear] at february
    obtain ⟨-, second⟩ := february.mpr (by omega)
    rw [second, before] at place
    exact ⟨second, by omega⟩

end Date
end CivilTime
