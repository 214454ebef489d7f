import CivilTime.Proofs.Calendar.Dates

/-!
# Decomposition and composition of instants

A count of nanoseconds splits into an epoch day and a time of day, the day into a civil date and the
time into hours, minutes, seconds and nanoseconds. Each split is undone by a sum, so decomposition
and composition are inverse to each other. Decomposition is total on the integers; composition fails
for parts that are not civil and for counts that are no instants.
-/
namespace CivilTime

namespace DateTime

/-- The parts are those of a civil date and of a time of day. -/
structure IsCivil (t : DateTime) : Prop where
  one_le_month : 1 ≤ t.month
  month_le : t.month ≤ 12
  one_le_day : 1 ≤ t.day
  day_le : t.day ≤ daysInMonth (isLeapYear t.year) t.month
  hour_le : t.hour ≤ 23
  minute_le : t.minute ≤ 59
  second_le : t.second ≤ 59
  nanosecond_lt : t.nanosecond < 1000000000

/-- The days from the epoch to a date: whole years one by one, then the months of the year before the
date's, then the days of the month. -/
def dayCount (t : DateTime) : Int :=
  daysOfYears 1970 (t.year - 1970).toNat - daysOfYears t.year (1970 - t.year).toNat
    + daysBeforeMonth (isLeapYear t.year) t.month + (t.day - 1)

/-- The nanoseconds from the epoch to a date and time, as an unbounded integer. -/
def count (t : DateTime) : Int :=
  (((t.dayCount * 24 + t.hour) * 60 + t.minute) * 60 + t.second) * 1000000000 + t.nanosecond

theorem toDay_date (t : DateTime) : t.date.toDay = t.dayCount := by
  have year := Year.firstDay_eq_daysOfYears t.year
  simp only [Date.toDay, date, dayCount, ← year]
  simp only [Year.of]
  omega

theorem count_eq (t : DateTime) : t.count = t.date.toDay * nsPerDay + t.timeOfDay := by
  rw [count, toDay_date, timeOfDay]
  simp only [nsPerDay, nsPerHour, nsPerMinute, nsPerSecond]
  omega

theorem IsCivil.date {t : DateTime} (h : t.IsCivil) : t.date.IsCivil :=
  ⟨rfl, h.one_le_month, h.month_le, h.one_le_day, h.day_le⟩

theorem IsCivil.timeOfDay_bounds {t : DateTime} (h : t.IsCivil) :
    0 ≤ t.timeOfDay ∧ t.timeOfDay < nsPerDay := by
  have hour := h.hour_le
  have minute := h.minute_le
  have second := h.second_le
  have nanosecond := h.nanosecond_lt
  simp only [timeOfDay, nsPerDay, nsPerHour, nsPerMinute, nsPerSecond]
  omega

/-! ### The parts of a sum -/

theorem IsCivil.epochDay_count {t : DateTime} (h : t.IsCivil) :
    epochDay t.count = t.date.toDay := by
  have time := h.timeOfDay_bounds
  rw [epochDay, count_eq]
  simp only [nsPerDay, nsPerHour, nsPerMinute, nsPerSecond] at time ⊢
  omega

theorem IsCivil.ofInstant_count {t : DateTime} (h : t.IsCivil) : ofInstant t.count = t := by
  have hourLe := h.hour_le
  have minuteLe := h.minute_le
  have secondLe := h.second_le
  have nanosecondLt := h.nanosecond_lt
  have hour : hourOf t.count = t.hour := by
    simp only [hourOf, count, nsPerDay, nsPerHour, nsPerMinute, nsPerSecond]
    omega
  have minute : minuteOf t.count = t.minute := by
    simp only [minuteOf, count, nsPerHour, nsPerMinute, nsPerSecond]
    omega
  have second : secondOf t.count = t.second := by
    simp only [secondOf, count, nsPerMinute, nsPerSecond]
    omega
  have nanosecond : nanosOfSecond t.count = t.nanosecond := by
    simp only [nanosOfSecond, count, nsPerSecond]
    omega
  rw [ofInstant, h.epochDay_count, h.date.ofDay_toDay, hour, minute, second, nanosecond]
  rfl

theorem IsCivil.yearOf_count {t : DateTime} (h : t.IsCivil) : (yearOf t.count).number = t.year :=
  congrArg DateTime.year h.ofInstant_count

theorem isCivil_ofInstant (n : Int) : (ofInstant n).IsCivil := by
  have civil := Date.isCivil_ofDay (epochDay n)
  constructor
  · exact civil.one_le_month
  · exact civil.month_le
  · exact civil.one_le_day
  · exact civil.day_le
  all_goals
    simp only [ofInstant, hourOf, minuteOf, secondOf, nanosOfSecond, nsPerDay, nsPerHour,
      nsPerMinute, nsPerSecond]
    omega

theorem timeOfDay_ofInstant (n : Int) : (ofInstant n).timeOfDay = n % nsPerDay := by
  -- Quotients and remainders of one number make up the number, unit by unit.
  have hours := Int.ediv_mul_add_emod (n % nsPerDay) nsPerHour
  have minutes := Int.ediv_mul_add_emod (n % nsPerHour) nsPerMinute
  have seconds := Int.ediv_mul_add_emod (n % nsPerMinute) nsPerSecond
  rw [Int.emod_emod_of_dvd n (by decide)] at hours minutes seconds
  have bounds := Int.emod_nonneg n (show nsPerSecond ≠ 0 by decide)
  simp only [timeOfDay, ofInstant, hourOf, minuteOf, secondOf, nanosOfSecond, nsPerDay, nsPerHour,
    nsPerMinute, nsPerSecond] at *
  omega

theorem toDay_date_ofInstant (n : Int) : (ofInstant n).date.toDay = epochDay n :=
  Date.toDay_ofDay (epochDay n)

theorem count_ofInstant (n : Int) : (ofInstant n).count = n := by
  rw [count_eq, toDay_date_ofInstant, timeOfDay_ofInstant]
  exact Int.ediv_mul_add_emod n nsPerDay

/-! ### Readings of single parts -/

theorem dayOfMonth_eq (n : Int) :
    dayOfMonth n (yearOf n) (monthOf n (yearOf n)) = (ofInstant n).day := by
  have started := (monthOfYearDay_bounds (Date.ofDay_yearDay_lt (epochDay n))).1
  have within := (Year.ofDay_day_bounds (epochDay n)).1
  simp only [dayOfMonth, monthOf, yearOf, ofInstant, Date.ofDay]
  omega

theorem nanosOfSecond_eq (n : Int) :
    millisOfSecond n * 1000000 + microsOfMilli n * 1000 + nanosOfMicro n = nanosOfSecond n := by
  simp only [millisOfSecond, microsOfMilli, nanosOfMicro, nanosOfSecond, nsPerSecond,
    nsPerMillisecond, nsPerMicrosecond]
  omega

theorem subsecond_lt (n : Int) :
    millisOfSecond n < 1000 ∧ microsOfMilli n < 1000 ∧ nanosOfMicro n < 1000 := by
  simp only [millisOfSecond, microsOfMilli, nanosOfMicro, nsPerSecond, nsPerMillisecond,
    nsPerMicrosecond]
  omega

theorem weekdayOf_range (n : Int) : 1 ≤ weekdayOf n ∧ weekdayOf n ≤ 7 := by
  simp only [weekdayOf, weekdayOfDay]
  omega

/-! ### Composition -/

/-- Composition checks that the parts are civil and that their count is an instant. -/
theorem IsCivil.toInstant_eq {t : DateTime} (h : t.IsCivil) : t.toInstant = asInstant t.count := by
  have month := h.one_le_month
  have day := h.one_le_day
  rw [toInstant, if_neg, if_neg, if_neg, if_neg, instantOfDay, count_eq]
  -- The four checks, from the last one to the first.
  · have := h.nanosecond_lt
    simp only [nsPerSecond]
    omega
  · have := h.hour_le
    have := h.minute_le
    have := h.second_le
    omega
  · have := h.day_le
    omega
  · have := h.month_le
    omega

theorem toInstant_of_not_isCivil {t : DateTime} (h : ¬ t.IsCivil) :
    ∃ e, t.toInstant = .error e ∧ e.kind = .range := by
  unfold toInstant
  split
  · exact ⟨_, rfl, rfl⟩
  next month =>
    split
    · exact ⟨_, rfl, rfl⟩
    next day =>
      split
      · exact ⟨_, rfl, rfl⟩
      next time =>
        split
        · exact ⟨_, rfl, rfl⟩
        next nanosecond =>
          simp only [nsPerSecond] at nanosecond
          -- A date and time that passes all four checks is civil.
          exact absurd ⟨by omega, by omega, by omega, by omega, by omega, by omega, by omega,
            by omega⟩ h

theorem toInstant_eq_ok_iff {t : DateTime} {n : Int} :
    t.toInstant = .ok n ↔ t.IsCivil ∧ IsInstant t.count ∧ t.count = n := by
  by_cases civil : t.IsCivil
  · rw [civil.toInstant_eq, asInstant_eq_ok_iff]
    exact ⟨fun h => ⟨civil, h⟩, fun h => h.2⟩
  · obtain ⟨e, failed, _⟩ := toInstant_of_not_isCivil civil
    simp [failed, civil]

theorem toInstant_ofInstant {n : Int} (h : IsInstant n) : (ofInstant n).toInstant = .ok n := by
  rw [toInstant_eq_ok_iff, count_ofInstant]
  exact ⟨isCivil_ofInstant n, h, rfl⟩

/-- Decomposition and composition are mutually inverse, and composition refuses exactly the parts
that are not civil or denote no instant. -/
theorem composition_inverts_decomposition :
    (∀ n, IsInstant n → (ofInstant n).toInstant = .ok n) ∧
    ∀ t : DateTime,
      (∀ n, t.toInstant = .ok n ↔ t.IsCivil ∧ IsInstant t.count ∧ t.count = n) ∧
      (∀ n, t.toInstant = .ok n → ofInstant n = t) ∧
      (¬ (t.IsCivil ∧ IsInstant t.count) → ∃ e, t.toInstant = .error e ∧ e.kind = .range) := by
  refine ⟨fun n h => toInstant_ofInstant h, fun t => ⟨fun n => toInstant_eq_ok_iff, ?_, ?_⟩⟩
  · intro n composed
    obtain ⟨civil, _, rfl⟩ := toInstant_eq_ok_iff.mp composed
    exact civil.ofInstant_count
  · intro refused
    by_cases civil : t.IsCivil
    -- Civil parts are refused for their count alone.
    · have outside : ¬ IsInstant t.count := fun instant => refused ⟨civil, instant⟩
      rw [civil.toInstant_eq, asInstant, if_neg outside]
      exact ⟨_, rfl, rfl⟩
    · exact toInstant_of_not_isCivil civil

/-- The first instant composes; one nanosecond earlier the parts are civil and refused. -/
theorem composition_inverts_decomposition_at_start :
    (ofInstant (minNanos + 1)).toInstant = .ok (minNanos + 1) ∧
    ofInstant (minNanos + 1) = ⟨1677, 9, 21, 0, 12, 43, 145224193⟩ ∧
    ∃ e, (⟨1677, 9, 21, 0, 12, 43, 145224192⟩ : DateTime).toInstant = .error e ∧
      e.kind = .range := by
  have first : (⟨1677, 9, 21, 0, 12, 43, 145224193⟩ : DateTime).toInstant = .ok (minNanos + 1) := by
    decide
  have before : ¬ IsInstant (⟨1677, 9, 21, 0, 12, 43, 145224192⟩ : DateTime).count := by
    rw [count_eq]
    decide
  exact ⟨composition_inverts_decomposition.1 _ (by decide),
    (composition_inverts_decomposition.2 _).2.1 _ first,
    (composition_inverts_decomposition.2 _).2.2 fun composed => before composed.2⟩

end DateTime
end CivilTime
