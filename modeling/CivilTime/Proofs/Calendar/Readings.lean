import CivilTime.Proofs.Calendar.DateTimes

/-!
# Readings of single parts

The parts of an instant are read one at a time or all at once. A reading of one part runs its own
divisions, and the day of the month starts from a year and a month that were read before. All of
them agree with the joint decomposition. Parts are kept in words of 8, 16 or 32 bits, which hold
every count that they are computed from.
-/
namespace CivilTime

/-! ### Words -/

/-- The reading is the exact count, of which the low bits that a word holds are all there is. -/
structure ReadsWhole (bits : Nat) (exact : Int) (reading : Nat) : Prop where
  value : exact = reading
  kept : exact % 2 ^ bits = exact

theorem ReadsWhole.of_lt {bits : Nat} {exact : Int} {reading : Nat} (value : exact = reading)
    (fits : reading < 2 ^ bits) : ReadsWhole bits exact reading where
  value := value
  kept := by
    rw [value]
    exact Int.emod_eq_of_lt (Int.natCast_nonneg reading) (by exact_mod_cast fits)

theorem ReadsWhole.of_bounds {bits : Nat} {exact : Int} (low : 0 ≤ exact)
    (high : exact < 2 ^ bits) : ReadsWhole bits exact exact.toNat where
  value := (Int.toNat_of_nonneg low).symm
  kept := Int.emod_eq_of_lt low high

/-- Words of the size that each part is kept in lose nothing of the counts that are put into them. -/
structure ReadsInWords (n : Int) : Prop where
  /-- The years from the epoch to the estimated one, signed and in 32 bits. -/
  estimate : IsYear (epochDay n * 400 / 146097)
  /-- The days of the year before the day, from which the month is looked up. -/
  yearDay : ReadsWhole 16 (epochDay n - (yearOf n).firstDay)
    (epochDay n - (yearOf n).firstDay).toNat
  dayOfYear : ReadsWhole 16 (epochDay n - (yearOf n).firstDay + 1) (dayOfYear n)
  month : ReadsWhole 8 (monthOf n (yearOf n)) (monthOf n (yearOf n))
  dayOfMonth : ReadsWhole 8
    (epochDay n - (yearOf n).firstDay - daysBeforeMonth (yearOf n).leap (monthOf n (yearOf n)) + 1)
    (dayOfMonth n (yearOf n) (monthOf n (yearOf n)))
  weekday : ReadsWhole 8 ((epochDay n + 3) % 7 + 1) (weekdayOf n)
  weekdayFromSunday : ReadsWhole 8 ((epochDay n + 4) % 7 + 1) (weekdayFromSunday n)
  hour : ReadsWhole 8 (n % nsPerDay / nsPerHour) (hourOf n)
  minute : ReadsWhole 8 (n % nsPerHour / nsPerMinute) (minuteOf n)
  second : ReadsWhole 8 (n % nsPerMinute / nsPerSecond) (secondOf n)
  nanosecond : ReadsWhole 32 (n % nsPerSecond) (nanosOfSecond n)
  millis : ReadsWhole 16 (n % nsPerSecond / nsPerMillisecond) (millisOfSecond n)
  micros : ReadsWhole 16 (n % nsPerMillisecond / nsPerMicrosecond) (microsOfMilli n)
  nanos : ReadsWhole 16 (n % nsPerMicrosecond) (nanosOfMicro n)

/-! ### Parts of the time of day -/

section Remainders

variable {bits : Nat} {length part : Int}

theorem ReadsWhole.of_emod (n : Int) (positive : 0 < length) (short : length ≤ 2 ^ bits) :
    ReadsWhole bits (n % length) (n % length).toNat :=
  .of_bounds (Int.emod_nonneg n (Int.ne_of_gt positive))
    (Int.lt_of_lt_of_le (Int.emod_lt_of_pos n positive) short)

theorem ReadsWhole.of_emod_ediv (n : Int) (positive : 0 < length) (some : 0 < part)
    (short : length ≤ 2 ^ bits * part) :
    ReadsWhole bits (n % length / part) (n % length / part).toNat := by
  have low := Int.emod_nonneg n (Int.ne_of_gt positive)
  have high := Int.lt_of_lt_of_le (Int.emod_lt_of_pos n positive) short
  exact .of_bounds (Int.ediv_nonneg low (Int.le_of_lt some)) (Int.ediv_lt_of_lt_mul some high)

end Remainders

/-! ### All readings -/

theorem weekdayFromSunday_le (n : Int) : weekdayFromSunday n ≤ 7 := by
  unfold weekdayFromSunday
  omega

theorem readsInWords {n : Int} (fits : Representable n) : ReadsInWords n := by
  have within := Year.ofDay_day_bounds (epochDay n)
  have length : yearLength (Year.ofDay (epochDay n)).number ≤ 366 := by
    unfold yearLength
    split <;> decide
  have month := monthOfYearDay_range (Date.ofDay_yearDay_lt (epochDay n))
  constructor
  case estimate =>
    unfold Representable at fits
    simp only [IsYear, minYear, maxYear, epochDay, minNanos, maxNanos, nsPerDay, nsPerHour,
      nsPerMinute, nsPerSecond] at fits ⊢
    omega
  case yearDay => exact .of_bounds within.1 (by unfold yearOf; omega)
  case dayOfYear => exact .of_bounds (by unfold yearOf; omega) (by unfold yearOf; omega)
  case month => exact .of_lt rfl (Nat.lt_of_le_of_lt month.2 (by decide))
  case dayOfMonth =>
    have civil := DateTime.isCivil_ofInstant n
    have first := civil.one_le_day
    have last := Nat.le_trans civil.day_le (daysInMonth_le _ _)
    rw [← DateTime.dayOfMonth_eq, dayOfMonth] at first last
    exact .of_bounds (by omega) (by omega)
  case weekday =>
    refine .of_lt ?_ (Nat.lt_of_le_of_lt (DateTime.weekdayOf_range n).2 (by decide))
    unfold weekdayOf weekdayOfDay
    omega
  case weekdayFromSunday =>
    refine .of_lt ?_ (Nat.lt_of_le_of_lt (weekdayFromSunday_le n) (by decide))
    unfold weekdayFromSunday
    omega
  case hour => exact .of_emod_ediv n (by decide) (by decide) (by decide)
  case minute => exact .of_emod_ediv n (by decide) (by decide) (by decide)
  case second => exact .of_emod_ediv n (by decide) (by decide) (by decide)
  case nanosecond => exact .of_emod n (by decide) (by decide)
  case millis => exact .of_emod_ediv n (by decide) (by decide) (by decide)
  case micros => exact .of_emod_ediv n (by decide) (by decide) (by decide)
  case nanos => exact .of_emod n (by decide) (by decide)

/-! ### Agreement with the decomposition -/

/-- The readings of an instant are the parts of a date and time. -/
structure ReadingsAgree (n : Int) (t : DateTime) : Prop where
  year : yearOf n = Year.of t.year
  month : monthOf n (yearOf n) = t.month
  day : dayOfMonth n (yearOf n) t.month = t.day
  dayOfYear : dayOfYear n = daysBeforeMonth (yearOf n).leap t.month + t.day
  hour : hourOf n = t.hour
  minute : minuteOf n = t.minute
  second : secondOf n = t.second
  nanosecond : nanosOfSecond n = t.nanosecond
  subsecond : t.nanosecond
    = 1000000 * millisOfSecond n + 1000 * microsOfMilli n + nanosOfMicro n
  timeOfDay : timeOfDay n = t.timeOfDay

theorem dayOfYear_eq (n : Int) :
    dayOfYear n = daysBeforeMonth (yearOf n).leap (DateTime.ofInstant n).month
      + (DateTime.ofInstant n).day := by
  have day := Date.toDay_ofDay (epochDay n)
  rw [Date.toDay] at day
  change (yearOf n).firstDay + (daysBeforeMonth (yearOf n).leap (DateTime.ofInstant n).month : Int)
    + ((DateTime.ofInstant n).day : Int) - 1 = epochDay n at day
  rw [dayOfYear]
  omega

theorem readingsAgree_ofInstant (n : Int) : ReadingsAgree n (DateTime.ofInstant n) where
  year := rfl
  month := rfl
  day := DateTime.dayOfMonth_eq n
  dayOfYear := dayOfYear_eq n
  hour := rfl
  minute := rfl
  second := rfl
  nanosecond := rfl
  subsecond := by
    have parts := DateTime.nanosOfSecond_eq n
    change nanosOfSecond n = _
    omega
  timeOfDay := (DateTime.timeOfDay_ofInstant n).symm

theorem weekdayOf_nextDay {m n : Int} (next : epochDay m = epochDay n + 1) :
    weekdayOf m = weekdayOf n % 7 + 1 := by
  unfold weekdayOf weekdayOfDay
  omega

theorem weekdayFromSunday_eq (n : Int) : weekdayFromSunday n = weekdayOf n % 7 + 1 := by
  unfold weekdayFromSunday weekdayOf weekdayOfDay
  omega

/-- Read one by one, the parts of a count are those of the civil date and time that denotes the
count, and no word is too small for its part. The weekday goes on by one from a day to the next, and
counted from Sunday it is one ahead. -/
theorem readings_agree_with_decomposition {n : Int} (fits : Representable n) :
    ((DateTime.ofInstant n).IsCivil ∧ (DateTime.ofInstant n).count = n ∧
        ReadingsAgree n (DateTime.ofInstant n)) ∧
      ReadsInWords n ∧ (∀ m, epochDay m = epochDay n + 1 → weekdayOf m = weekdayOf n % 7 + 1) ∧
      weekdayFromSunday n = weekdayOf n % 7 + 1 :=
  ⟨⟨DateTime.isCivil_ofInstant n, DateTime.count_ofInstant n, readingsAgree_ofInstant n⟩,
    readsInWords fits, fun _ => weekdayOf_nextDay, weekdayFromSunday_eq n⟩

/-- The least count of the range, before the epoch, is read as a Tuesday of 1677. -/
theorem readings_agree_with_decomposition_at_start :
    Representable minNanos ∧ ReadingsAgree minNanos ⟨1677, 9, 21, 0, 12, 43, 145224192⟩ ∧
      weekdayOf minNanos = 2 ∧ weekdayOf (minNanos + nsPerDay) = 3 ∧
      weekdayFromSunday minNanos = 3 := by
  have fits : Representable minNanos := by decide
  have tuesday : weekdayOf minNanos = 2 := by decide
  have parts : DateTime.ofInstant minNanos = ⟨1677, 9, 21, 0, 12, 43, 145224192⟩ := by decide
  obtain ⟨⟨-, -, agree⟩, -, next, fromSunday⟩ := readings_agree_with_decomposition fits
  rw [parts] at agree
  rw [tuesday] at fromSunday
  have wednesday := next (minNanos + nsPerDay) (by decide)
  rw [tuesday] at wednesday
  exact ⟨fits, agree, tuesday, wednesday, fromSunday⟩

end CivilTime
