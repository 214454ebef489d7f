import CivilTime.Proofs.Calendar.DateTimes

/-!
# The order of instants by their parts

Counts are in order of their parts, from the year down to the nanosecond: the coarsest part that
differs decides. Days are in order of their civil dates, as years and months cut the days into
intervals. Within the day each part is a quotient, and the next finer parts belong to the remainder.
-/
namespace CivilTime

/-! ### Civil dates -/

namespace Date

/-- The date is earlier by the first part that differs. -/
def Before (a b : Date) : Prop :=
  a.year.number < b.year.number ∨ a.year.number = b.year.number ∧
    (a.month < b.month ∨ a.month = b.month ∧ a.day < b.day)

theorem Before.trichotomy (a b : Date) :
    a.Before b ∨
      (a.year.number = b.year.number ∧ a.month = b.month ∧ a.day = b.day) ∨ b.Before a := by
  unfold Before
  omega

variable {a b : Date}

theorem IsCivil.toDay_lt (left : a.IsCivil) (right : b.IsCivil) (before : a.Before b) :
    a.toDay < b.toDay := by
  rw [toDay_eq left.one_le_day, toDay_eq right.one_le_day]
  rcases before with year | ⟨year, month | ⟨month, day⟩⟩
  -- The day of the earlier year is before the first one of the next year.
  · have whole := left.yearDay_lt
    have ended := Year.firstDay_succ a.year.number
    have begun := Year.firstDay_le_iff.mpr (Int.add_one_le_of_lt year)
    rw [← right.year, ended, ← left.year] at begun
    omega
  · have same : a.year = b.year := by rw [left.year, right.year, year]
    have ended := left.yearDay_bounds.2
    have begun := right.yearDay_bounds.1
    have between := daysBeforeMonth_mono b.year.leap (Nat.succ_le_of_lt month)
    rw [same] at ended ⊢
    simp only [Nat.succ_eq_add_one] at between
    omega
  · have same : a.year = b.year := by rw [left.year, right.year, year]
    have first := left.one_le_day
    rw [same, yearDay, yearDay, same, month]
    omega

theorem IsCivil.toDay_lt_iff (left : a.IsCivil) (right : b.IsCivil) :
    a.toDay < b.toDay ↔ a.Before b := by
  refine ⟨fun earlier => ?_, left.toDay_lt right⟩
  -- Of the three cases only one leaves the first day earlier.
  rcases Before.trichotomy a b with before | ⟨year, month, day⟩ | after
  · exact before
  · have same : a.toDay = b.toDay := by rw [toDay, toDay, left.year, right.year, year, month, day]
    omega
  · have later := right.toDay_lt left after
    omega

end Date

/-! ### Parts of a count -/

variable {m n : Int}

theorem lt_iff_ediv_emod {length : Int} (positive : 0 < length) :
    m < n ↔ m / length < n / length ∨ m / length = n / length ∧ m % length < n % length := by
  have left := Int.ediv_mul_add_emod m length
  have right := Int.ediv_mul_add_emod n length
  rcases Int.lt_trichotomy (m / length) (n / length) with less | same | greater
  · have earlier : m < n := by
      by_contra reversed
      have ordered := Int.ediv_le_ediv positive (Int.not_lt.mp reversed)
      omega
    simp only [less, earlier, true_or]
  -- Both products are the same now, so the remainders decide.
  · rw [same] at left ⊢
    omega
  · have later : n < m := by
      by_contra reversed
      have ordered := Int.ediv_le_ediv positive (Int.not_lt.mp reversed)
      omega
    omega

/-- The part of a count between two lengths of which one divides the other. -/
theorem emod_lt_emod_iff {coarse fine : Int} (positive : 0 < fine) (divides : fine ∣ coarse)
    (some : coarse ≠ 0) :
    m % coarse < n % coarse ↔
      (m % coarse / fine).toNat < (n % coarse / fine).toNat ∨
        (m % coarse / fine).toNat = (n % coarse / fine).toNat ∧ m % fine < n % fine := by
  have left := Int.ediv_nonneg (Int.emod_nonneg m some) (Int.le_of_lt positive)
  have right := Int.ediv_nonneg (Int.emod_nonneg n some) (Int.le_of_lt positive)
  rw [lt_iff_ediv_emod positive, Int.emod_emod_of_dvd m divides, Int.emod_emod_of_dvd n divides]
  omega

theorem emod_lt_emod_iff_toNat {length : Int} (some : length ≠ 0) :
    m % length < n % length ↔ (m % length).toNat < (n % length).toNat := by
  have left := Int.emod_nonneg m some
  have right := Int.emod_nonneg n some
  omega

theorem epochDay_lt_iff :
    epochDay m < epochDay n ↔
      (yearOf m).number < (yearOf n).number ∨ (yearOf m).number = (yearOf n).number ∧
        (monthOf m (yearOf m) < monthOf n (yearOf n) ∨
          monthOf m (yearOf m) = monthOf n (yearOf n) ∧
            dayOfMonth m (yearOf m) (monthOf m (yearOf m))
              < dayOfMonth n (yearOf n) (monthOf n (yearOf n))) := by
  have order := (Date.isCivil_ofDay (epochDay m)).toDay_lt_iff (Date.isCivil_ofDay (epochDay n))
  rw [Date.toDay_ofDay, Date.toDay_ofDay] at order
  rw [order, DateTime.dayOfMonth_eq, DateTime.dayOfMonth_eq]
  rfl

theorem epochDay_eq_iff :
    epochDay m = epochDay n ↔
      (yearOf m).number = (yearOf n).number ∧ monthOf m (yearOf m) = monthOf n (yearOf n) ∧
        dayOfMonth m (yearOf m) (monthOf m (yearOf m))
          = dayOfMonth n (yearOf n) (monthOf n (yearOf n)) := by
  constructor
  · intro same
    simp only [dayOfMonth, monthOf, yearOf, same]
    trivial
  · rintro ⟨year, month, day⟩
    have forward := mt (@epochDay_lt_iff m n).mp (by omega)
    have backward := mt (@epochDay_lt_iff n m).mp (by omega)
    omega

/-- Three parts compared as one, and then the rest, are four parts compared in turn. -/
theorem lex_assoc {a b c same sameNext sameLast rest : Prop} :
    ((a ∨ same ∧ (b ∨ sameNext ∧ c)) ∨ (same ∧ sameNext ∧ sameLast) ∧ rest) ↔
      a ∨ same ∧ (b ∨ sameNext ∧ (c ∨ sameLast ∧ rest)) := by
  tauto

/-- The first part that differs decides on the order of counts. -/
theorem lt_iff_parts :
    m < n ↔
      (yearOf m).number < (yearOf n).number ∨ (yearOf m).number = (yearOf n).number ∧
      (monthOf m (yearOf m) < monthOf n (yearOf n) ∨
        monthOf m (yearOf m) = monthOf n (yearOf n) ∧
      (dayOfMonth m (yearOf m) (monthOf m (yearOf m))
          < dayOfMonth n (yearOf n) (monthOf n (yearOf n)) ∨
        dayOfMonth m (yearOf m) (monthOf m (yearOf m))
          = dayOfMonth n (yearOf n) (monthOf n (yearOf n)) ∧
      (hourOf m < hourOf n ∨ hourOf m = hourOf n ∧
      (minuteOf m < minuteOf n ∨ minuteOf m = minuteOf n ∧
      (secondOf m < secondOf n ∨ secondOf m = secondOf n ∧
      (millisOfSecond m < millisOfSecond n ∨ millisOfSecond m = millisOfSecond n ∧
      (microsOfMilli m < microsOfMilli n ∨ microsOfMilli m = microsOfMilli n ∧
        nanosOfMicro m < nanosOfMicro n))))))) := by
  have days : m < n ↔ epochDay m < epochDay n ∨
      epochDay m = epochDay n ∧ m % nsPerDay < n % nsPerDay := lt_iff_ediv_emod (by decide)
  have hours : m % nsPerDay < n % nsPerDay ↔ hourOf m < hourOf n ∨
      hourOf m = hourOf n ∧ m % nsPerHour < n % nsPerHour :=
    emod_lt_emod_iff (by decide) (by decide) (by decide)
  have minutes : m % nsPerHour < n % nsPerHour ↔ minuteOf m < minuteOf n ∨
      minuteOf m = minuteOf n ∧ m % nsPerMinute < n % nsPerMinute :=
    emod_lt_emod_iff (by decide) (by decide) (by decide)
  have seconds : m % nsPerMinute < n % nsPerMinute ↔ secondOf m < secondOf n ∨
      secondOf m = secondOf n ∧ m % nsPerSecond < n % nsPerSecond :=
    emod_lt_emod_iff (by decide) (by decide) (by decide)
  have millis : m % nsPerSecond < n % nsPerSecond ↔ millisOfSecond m < millisOfSecond n ∨
      millisOfSecond m = millisOfSecond n ∧ m % nsPerMillisecond < n % nsPerMillisecond :=
    emod_lt_emod_iff (by decide) (by decide) (by decide)
  have micros : m % nsPerMillisecond < n % nsPerMillisecond ↔ microsOfMilli m < microsOfMilli n ∨
      microsOfMilli m = microsOfMilli n ∧ m % nsPerMicrosecond < n % nsPerMicrosecond :=
    emod_lt_emod_iff (by decide) (by decide) (by decide)
  have nanos : m % nsPerMicrosecond < n % nsPerMicrosecond ↔ nanosOfMicro m < nanosOfMicro n :=
    emod_lt_emod_iff_toNat (by decide)
  rw [days, epochDay_lt_iff, epochDay_eq_iff, lex_assoc, hours, minutes, seconds, millis, micros,
    nanos]

end CivilTime
