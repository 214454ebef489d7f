import CivilTime.Proofs.Calendar.MonthAdditions

/-!
# Differences in calendar units

The months between two instants come from the numbers of their months and the times since the first
of them, without any addition. Yet they are the months that can be added to the earlier instant
without passing the later one, and one more does pass it, unless its month is too short for the day.
The years are whole dozens of these months.
-/
namespace CivilTime

/-- The months of a calendar unit. -/
def TimeUnit.months : TimeUnit → Int
  | month => 1
  | year => 12
  | fixed _ => 0

open DateTime

/-! ### Months from one instant to another -/

section Months

variable {a b months : Int}

theorem monthsFrom_eq (a b : Int) :
    monthsFrom a b
      = if (ofInstant b).timeOfMonth < (ofInstant a).timeOfMonth then
          (ofInstant b).monthNumber - (ofInstant a).monthNumber - 1
        else (ofInstant b).monthNumber - (ofInstant a).monthNumber := by
  have months : 12 * ((Date.ofDay (epochDay b)).year.number - (Date.ofDay (epochDay a)).year.number)
      + (Date.ofDay (epochDay b)).month - (Date.ofDay (epochDay a)).month
      = (ofInstant b).monthNumber - (ofInstant a).monthNumber := by
    simp only [monthNumber, ofInstant]
    omega
  rw [monthsFrom, timeOfMonth_ofInstant, timeOfMonth_ofInstant, months]

/-- Months up to the difference do not pass the later instant, whether or not the day is kept. -/
theorem monthsLater_le (few : months ≤ monthsFrom a b) :
    ((ofInstant a).monthsLater months).count ≤ b := by
  have civil := (isCivil_ofInstant a).monthsLater months
  have number := monthNumber_monthsLater (ofInstant a) months
  have time := timeOfMonth_monthsLater_le (ofInstant a) months
  rw [monthsFrom_eq] at few
  rw [← count_ofInstant b, civil.count_le_iff (isCivil_ofInstant b)]
  -- The month of the later instant is reached only if its time of the month suffices.
  split_ifs at few with incomplete
  · omega
  · omega

/-- More months pass the later instant if the day is kept. -/
theorem lt_monthsLater (many : monthsFrom a b < months)
    (kept : ((ofInstant a).monthsLater months).day = (ofInstant a).day) :
    b < ((ofInstant a).monthsLater months).count := by
  have civil := (isCivil_ofInstant a).monthsLater months
  have number := monthNumber_monthsLater (ofInstant a) months
  have time := timeOfMonth_monthsLater kept
  rw [monthsFrom_eq] at many
  rw [← Int.not_le, ← count_ofInstant b, civil.count_le_iff (isCivil_ofInstant b)]
  split_ifs at many with incomplete
  -- The months may end in that of the later instant, but then at too late a time of the month.
  · omega
  · omega

/-- Adding months does not lead back. -/
theorem le_monthsLater (forward : 0 ≤ months) :
    a ≤ ((ofInstant a).monthsLater months).count := by
  have civil := isCivil_ofInstant a
  rcases forward.eq_or_lt with rfl | positive
  · rw [civil.monthsLater_zero, count_ofInstant]
  · have number := monthNumber_monthsLater (ofInstant a) months
    have order := civil.count_le_iff (civil.monthsLater months)
    rw [count_ofInstant] at order
    exact order.mpr (.inl (by omega))

/-- The incomplete last month is taken from at least one month. -/
theorem monthsFrom_nonneg (ordered : a ≤ b) : 0 ≤ monthsFrom a b := by
  by_contra negative
  -- Otherwise no months at all, which keep the day, would pass the later instant.
  have still := (isCivil_ofInstant a).monthsLater_zero
  have passed : b < ((ofInstant a).monthsLater 0).count :=
    lt_monthsLater (Int.not_le.mp negative) (by rw [still])
  rw [still, count_ofInstant] at passed
  omega

theorem monthsFrom_lt (first : IsInstant a) (last : IsInstant b) : monthsFrom a b < maxNanos := by
  have start := first.yearOf_bounds
  have stop := last.yearOf_bounds
  have least : (ofInstant a).monthNumber / 12 = (yearOf a).number :=
    (isCivil_ofInstant a).monthNumber_div
  have greatest : (ofInstant b).monthNumber / 12 = (yearOf b).number :=
    (isCivil_ofInstant b).monthNumber_div
  rw [monthsFrom_eq]
  unfold maxNanos
  split <;> omega

end Months

/-! ### Calendar units -/

section Units

variable {a b : Int} {unit : TimeUnit}

theorem unitsBetween_comm (a b : Int) (unit : TimeUnit) :
    unitsBetween b a unit = unitsBetween a b unit := by
  have months : monthsBetween b a = monthsBetween a b := by
    rcases Int.lt_trichotomy a b with less | rfl | greater
    · rw [monthsBetween, monthsBetween, if_neg (by omega), if_pos (by omega)]
    · rfl
    · rw [monthsBetween, monthsBetween, if_pos (by omega), if_neg (by omega)]
  cases unit with
  | year => rw [unitsBetween, unitsBetween, yearsBetween, yearsBetween, months]
  | month => exact months
  | fixed unit =>
    have distance : (b - a).natAbs = (a - b).natAbs := by omega
    rw [unitsBetween, unitsBetween, distance]

theorem unitsBetween_eq (ordered : a ≤ b) (calendar : unit.isCalendar) :
    unitsBetween a b unit = monthsFrom a b / unit.months := by
  have months : monthsBetween a b = monthsFrom a b := if_pos ordered
  cases unit with
  | year => rw [unitsBetween, yearsBetween, months, TimeUnit.months]
  | month => rw [unitsBetween, months, TimeUnit.months, Int.ediv_one]
  | fixed unit => cases calendar

theorem addUnits_givesExactly (instant : IsInstant a) (calendar : unit.isCalendar) (amount : Int) :
    GivesExactly (addUnits a unit amount) ((ofInstant a).monthsLater (unit.months * amount)).count := by
  cases unit with
  | year => exact addYears_givesExactly instant amount
  | month =>
    rw [TimeUnit.months, Int.one_mul]
    exact addMonths_givesExactly instant amount
  | fixed unit => cases calendar

theorem TimeUnit.months_pos (calendar : unit.isCalendar) : 0 < unit.months := by
  cases unit with
  | year => decide
  | month => decide
  | fixed unit => cases calendar

/-- Adding the calendar units between two instants to the earlier one leads to an instant from there
up to the later one. Adding one unit more leads past it or out of range, unless the day had to be
held within a shorter month. -/
theorem addUnits_unitsBetween {a b : Int} (first : IsInstant a) (last : IsInstant b)
    (ordered : a ≤ b) {unit : TimeUnit} (calendar : unit.isCalendar) :
    unitsBetween b a unit = unitsBetween a b unit ∧
    (0 ≤ unitsBetween a b unit ∧ Representable (unitsBetween a b unit + 1)) ∧
    (∃ c, addUnits a unit (unitsBetween a b unit) = .ok c ∧ a ≤ c ∧ c ≤ b) ∧
    (((ofInstant a).monthsLater (unit.months * (unitsBetween a b unit + 1))).day
        = (ofInstant a).day →
      FailsOutOfRange (addUnits a unit (unitsBetween a b unit + 1)) ∨
        ∃ c, addUnits a unit (unitsBetween a b unit + 1) = .ok c ∧ b < c) := by
  have positive := TimeUnit.months_pos calendar
  have nonneg := monthsFrom_nonneg ordered
  have units := unitsBetween_eq ordered calendar
  have few : unit.months * unitsBetween a b unit ≤ monthsFrom a b := by
    rw [units]
    exact Int.mul_ediv_self_le (Int.ne_of_gt positive)
  have many : monthsFrom a b < unit.months * (unitsBetween a b unit + 1) := by
    rw [units, Int.mul_add, Int.mul_one]
    exact Int.lt_mul_ediv_self_add positive
  have forward : 0 ≤ unitsBetween a b unit := by
    rw [units]
    exact Int.ediv_nonneg nonneg (Int.le_of_lt positive)
  refine ⟨unitsBetween_comm a b unit, ⟨forward, ?_⟩, ?_, ?_⟩
  · have bounded : unitsBetween a b unit < maxNanos := by
      rw [units]
      exact Int.lt_of_le_of_lt (Int.ediv_le_self _ nonneg) (monthsFrom_lt first last)
    unfold Representable minNanos
    omega
  -- The sum is between two instants, so it is one.
  · have begun : a ≤ ((ofInstant a).monthsLater (unit.months * unitsBetween a b unit)).count :=
      le_monthsLater (Int.mul_nonneg (Int.le_of_lt positive) forward)
    have ended := monthsLater_le few
    have between : IsInstant ((ofInstant a).monthsLater (unit.months * unitsBetween a b unit)).count :=
      ⟨Int.lt_of_lt_of_le first.1 begun, Int.le_trans ended last.2⟩
    exact ⟨_, (addUnits_givesExactly first calendar _).count between, begun, ended⟩
  · intro kept
    have exact := addUnits_givesExactly first calendar (unitsBetween a b unit + 1)
    by_cases reached : IsInstant
        ((ofInstant a).monthsLater (unit.months * (unitsBetween a b unit + 1))).count
    · exact .inr ⟨_, exact.count reached, lt_monthsLater many kept⟩
    · exact .inl (exact.refusal reached)

/-- One month lies between 2021-01-31 and 2021-03-30: it leads to the last day of February, and
two months lead past the end of the time between. -/
theorem addUnits_unitsBetween_over_february :
    IsInstant 1612051200000000000 ∧ IsInstant 1617062400000000000 ∧
      (1612051200000000000 : Int) ≤ 1617062400000000000 ∧ TimeUnit.month.isCalendar ∧
      unitsBetween 1612051200000000000 1617062400000000000 .month = 1 ∧
      (∃ c, addUnits 1612051200000000000 .month 1 = .ok c ∧ 1612051200000000000 ≤ c ∧
        c ≤ 1617062400000000000) ∧
      ((ofInstant 1612051200000000000).monthsLater 2).day = (ofInstant 1612051200000000000).day ∧
      (FailsOutOfRange (addUnits 1612051200000000000 .month 2) ∨
        ∃ c, addUnits 1612051200000000000 .month 2 = .ok c ∧ 1617062400000000000 < c) := by
  have first : IsInstant 1612051200000000000 := by decide
  have last : IsInstant 1617062400000000000 := by decide
  have ordered : (1612051200000000000 : Int) ≤ 1617062400000000000 := by decide
  have one : unitsBetween 1612051200000000000 1617062400000000000 .month = 1 := by decide
  have kept : ((ofInstant 1612051200000000000).monthsLater 2).day
      = (ofInstant 1612051200000000000).day := by decide
  obtain ⟨-, -, reached, passed⟩ :=
    addUnits_unitsBetween first last ordered (show TimeUnit.month.isCalendar from rfl)
  rw [one] at reached passed
  exact ⟨first, last, ordered, rfl, one, reached, kept, passed kept⟩

end Units
end CivilTime
