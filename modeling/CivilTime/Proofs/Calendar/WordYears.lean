import CivilTime.Proofs.Calendar.Years

/-!
# Years in words

The year of a day is found in a few steps, each of which leaves its result in a word of 32 or 64
bits. The steps are written for any treatment of results that do not fit: a result may lose its high
bits, or there may be none. Under both, results that fit are exact.

The first day of a year takes no step out of its word, and neither does the correction of an
estimate, unless the year is at an end of the 32-bit range. The estimate itself does: where it is
nearly 2^31 years before the year 0, it is more than that before the epoch, so the years between the
two wrap around. Adding the year of the epoch wraps them back.
-/
namespace CivilTime

/-- What is kept of the result of a step, in words of either size. -/
structure WordArithmetic (m : Type → Type) where
  in32 : Int → m Int
  in64 : Int → m Int

namespace WordArithmetic

/-- A result that does not fit loses its high bits. -/
def wrapping : WordArithmetic Id where
  in32 n := n.bmod 4294967296
  in64 n := n.bmod 18446744073709551616

/-- There is no result that does not fit. -/
def checking : WordArithmetic Option where
  in32 n := if IsYear n then some n else none
  in64 n := if Representable n then some n else none

/-- A result that fits is kept as it is. -/
structure Exact {m : Type → Type} [Monad m] (words : WordArithmetic m) : Prop where
  in32 : ∀ {n : Int}, IsYear n → words.in32 n = pure n
  in64 : ∀ {n : Int}, Representable n → words.in64 n = pure n

/-- Counts of days fit in 64 bits, with room for products by small factors. -/
theorem Exact.in64_of_small {m : Type → Type} [Monad m] {words : WordArithmetic m}
    (precise : words.Exact) {n : Int} (low : -1000000000000000 ≤ n)
    (high : n ≤ 1000000000000000) : words.in64 n = pure n := by
  apply precise.in64
  unfold Representable minNanos maxNanos
  omega

theorem exact_wrapping : wrapping.Exact where
  in32 fits := by
    unfold IsYear minYear maxYear at fits
    exact Int.bmod_eq_of_le (by omega) (by omega)
  in64 fits := by
    unfold Representable minNanos maxNanos at fits
    exact Int.bmod_eq_of_le (by omega) (by omega)

theorem exact_checking : checking.Exact where
  in32 fits := if_pos fits
  in64 fits := if_pos fits

end WordArithmetic

/-! ### Leap years -/

/-- The leap rule on a word: its two lowest bits, and remainders that take the sign of the year. -/
def isLeapYearInWord (number : Int) : Bool :=
  (BitVec.ofInt 32 number &&& 3#32) == 0#32 && (number.tmod 100 != 0 || number.tmod 400 == 0)

theorem lowestBits_eq_zero_iff (number : Int) :
    BitVec.ofInt 32 number &&& 3#32 = 0#32 ↔ number % 4 = 0 := by
  have bits : (BitVec.ofInt 32 number &&& 3#32).toNat = (number % 4294967296).toNat % 4 := by
    rw [BitVec.toNat_and, BitVec.toNat_ofInt]
    exact Nat.and_two_pow_sub_one_eq_mod _ 2
  rw [BitVec.toNat_eq, bits, BitVec.toNat_ofNat]
  omega

theorem isLeapYearInWord_eq (number : Int) : isLeapYearInWord number = isLeapYear number := by
  -- Whatever its sign, a remainder is zero at the multiples of the divisor.
  have century : number.tmod 100 = 0 ↔ number % 100 = 0 := by
    rw [← Int.dvd_iff_tmod_eq_zero, Int.dvd_iff_emod_eq_zero]
  have cycle : number.tmod 400 = 0 ↔ number % 400 = 0 := by
    rw [← Int.dvd_iff_tmod_eq_zero, Int.dvd_iff_emod_eq_zero]
  apply Bool.eq_iff_iff.mpr
  simp only [isLeapYearInWord, isLeapYear, Bool.and_eq_true, Bool.or_eq_true, beq_iff_eq,
    bne_iff_ne, ne_eq, lowestBits_eq_zero_iff, century, cycle]

/-- Of the multiples of 4, a multiple of 100 is a leap year only if it is one of 400. -/
theorem isLeapYear_iff_dvd (number : Int) :
    isLeapYear number = true ↔ 4 ∣ number ∧ (100 ∣ number → 400 ∣ number) := by
  rw [isLeapYear_iff]
  omega

namespace Year

/-! ### First days and the year of a day in steps -/

section Steps

variable {m : Type → Type} [Monad m] (words : WordArithmetic m)

/-- The epoch day of January 1st, one step at a time. -/
def firstDayIn (year : Year) : m Int := do
  let years ← words.in64 (year.number - 1970)
  let common ← words.in64 (365 * years)
  let leaps ← words.in64 (year.number / 4 - year.number / 100)
  let leaps ← words.in64 (leaps + year.number / 400)
  let days ← words.in64 (common + leaps)
  let days ← words.in64 (days - year.leap.toNat)
  words.in64 (days - leapYearsThrough 1969)

/-- The linear estimate of the year of a day, one step at a time. -/
def estimateIn (day : Int) : m Int := do
  let cycles ← words.in64 (day * 400)
  let years ← words.in32 (cycles / 146097)
  words.in32 (1970 + years)

/-- The year of a day that is in the estimated one or next to it, one step at a time. -/
def correctIn (day estimate : Int) : m Int := do
  let start ← firstDayIn words ⟨estimate, isLeapYearInWord estimate⟩
  if day < start then
    words.in32 (estimate - 1)
  else do
    let next ← words.in32 (estimate + 1)
    let stop ← firstDayIn words ⟨next, isLeapYearInWord next⟩
    return if stop ≤ day then next else estimate

/-- The number of the year that holds a day, one step at a time. -/
def numberOfDayIn (day : Int) : m Int := do
  let estimate ← estimateIn words day
  correctIn words day estimate

end Steps

/-- The linear estimate of the year of a day. -/
def estimateOfDay (day : Int) : Int := 1970 + day * 400 / 146097

theorem numberOfDay_eq_corrected (day : Int) :
    numberOfDay day
      = if day < (of (estimateOfDay day)).firstDay then estimateOfDay day - 1
        else if (of (estimateOfDay day + 1)).firstDay ≤ day then estimateOfDay day + 1
        else estimateOfDay day :=
  rfl

/-- Whatever the day, its year is the estimated one or next to it. -/
theorem estimateOfDay_near (day : Int) :
    numberOfDay day - 1 ≤ estimateOfDay day ∧ estimateOfDay day ≤ numberOfDay day + 1 := by
  rw [numberOfDay_eq_corrected]
  split_ifs <;> omega

theorem representable_of_estimate {day : Int} (held : IsYear (estimateOfDay day)) :
    Representable (day * 400) := by
  unfold IsYear estimateOfDay minYear maxYear at held
  unfold Representable minNanos maxNanos
  omega

section Exact

variable {m : Type → Type} [Monad m] [LawfulMonad m] {words : WordArithmetic m}

theorem firstDayIn_eq (precise : words.Exact) {year : Year} (held : IsYear year.number) :
    year.firstDayIn words = pure year.firstDay := by
  have flag : year.leap.toNat ≤ 1 := Bool.toNat_le year.leap
  have before : leapYearsThrough 1969 = 477 := rfl
  unfold IsYear minYear maxYear at held
  unfold firstDayIn
  rw [precise.in64_of_small (by omega) (by omega), pure_bind,
    precise.in64_of_small (by omega) (by omega), pure_bind,
    precise.in64_of_small (by omega) (by omega), pure_bind,
    precise.in64_of_small (by omega) (by omega), pure_bind,
    precise.in64_of_small (by omega) (by omega), pure_bind,
    precise.in64_of_small (by omega) (by omega), pure_bind,
    precise.in64_of_small (by omega) (by omega)]
  rfl

/-- Where the years from the epoch fit, no step of the estimate leaves its word. -/
theorem estimateIn_eq (precise : words.Exact) {day : Int} (low : minYear ≤ day * 400 / 146097)
    (high : estimateOfDay day ≤ maxYear) :
    estimateIn words day = pure (estimateOfDay day) := by
  have years : IsYear (day * 400 / 146097) := by
    unfold estimateOfDay maxYear at high
    unfold IsYear maxYear
    omega
  have estimate : IsYear (estimateOfDay day) := by
    unfold IsYear estimateOfDay minYear at *
    omega
  rw [estimateIn, precise.in64 (representable_of_estimate estimate), pure_bind,
    precise.in32 years, pure_bind]
  exact precise.in32 estimate

/-- An estimate that is not at an end of the 32-bit range is corrected within words. -/
theorem correctIn_eq (precise : words.Exact) {day : Int} (low : minYear < estimateOfDay day)
    (high : estimateOfDay day < maxYear) :
    correctIn words day (estimateOfDay day) = pure (numberOfDay day) := by
  have held : IsYear (estimateOfDay day) := ⟨by omega, by omega⟩
  have last : IsYear (estimateOfDay day - 1) := ⟨by omega, by omega⟩
  have next : IsYear (estimateOfDay day + 1) := ⟨by omega, by omega⟩
  unfold correctIn
  rw [isLeapYearInWord_eq, firstDayIn_eq precise held, pure_bind, precise.in32 last,
    precise.in32 next, pure_bind, isLeapYearInWord_eq, firstDayIn_eq precise next, pure_bind,
    numberOfDay_eq_corrected]
  by_cases early : day < (of (estimateOfDay day)).firstDay
  · rw [if_pos early]
    exact if_pos early
  · rw [if_neg early]
    exact if_neg early

end Exact

/-- What wraps around in the years from the epoch wraps back in the estimate. -/
theorem estimateIn_wrapping {day : Int} (held : IsYear (estimateOfDay day)) :
    estimateIn .wrapping day = pure (estimateOfDay day) := by
  rw [estimateIn, WordArithmetic.exact_wrapping.in64 (representable_of_estimate held), pure_bind,
    ← WordArithmetic.exact_wrapping.in32 held]
  exact Int.add_bmod_bmod

theorem numberOfDayIn_wrapping {day : Int} (low : minYear < estimateOfDay day)
    (high : estimateOfDay day < maxYear) :
    numberOfDayIn .wrapping day = pure (numberOfDay day) := by
  rw [numberOfDayIn, estimateIn_wrapping ⟨by omega, by omega⟩, pure_bind,
    correctIn_eq WordArithmetic.exact_wrapping low high]

/-- No step leaves its word exactly where the years from the epoch to the estimate fit. -/
theorem numberOfDayIn_checking_iff {day : Int} (low : minYear < estimateOfDay day)
    (high : estimateOfDay day < maxYear) :
    numberOfDayIn .checking day = some (numberOfDay day) ↔ minYear ≤ day * 400 / 146097 := by
  constructor
  · intro found
    by_contra behind
    have product : Representable (day * 400) :=
      representable_of_estimate ⟨by omega, by omega⟩
    have years : ¬ IsYear (day * 400 / 146097) := fun held => behind held.1
    have none : numberOfDayIn .checking day = none := by
      rw [numberOfDayIn, estimateIn, WordArithmetic.exact_checking.in64 product, pure_bind]
      simp [WordArithmetic.checking, years]
    rw [none] at found
    cases found
  · intro fits
    rw [numberOfDayIn, estimateIn_eq WordArithmetic.exact_checking fits (by omega), pure_bind,
      correctIn_eq WordArithmetic.exact_checking low high]
    rfl

/-- One step from the estimate finds the year of a day, in all years but a few at the ends of the
32-bit range, and words that wrap find the same. The first day of any year is found in words, the
next year starts 365 or 366 days later, and the bits of a year tell which. -/
theorem numberOfDay_found_in_one_step {day : Int} (lower : (of (-2147483640)).firstDay ≤ day)
    (upper : day < (of 2147483640).firstDay) :
    (numberOfDayIn .wrapping day).run = numberOfDay day ∧
      (∀ number, numberOfDay day = number ↔
        (of number).firstDay ≤ day ∧ day < (of (number + 1)).firstDay) ∧
      (∀ year : Year, IsYear year.number → (year.firstDayIn .wrapping).run = year.firstDay) ∧
      ∀ number,
        ((of (number + 1)).firstDay - (of number).firstDay
          = if isLeapYear number then 366 else 365) ∧
        (isLeapYear number = true ↔ 4 ∣ number ∧ (100 ∣ number → 400 ∣ number)) ∧
        isLeapYearInWord number = isLeapYear number := by
  have least := le_numberOfDay_iff.mpr lower
  have greatest : numberOfDay day < 2147483640 := by
    by_contra later
    have begun := le_numberOfDay_iff.mp (Int.not_lt.mp later)
    omega
  have near := estimateOfDay_near day
  have low : minYear < estimateOfDay day := by
    unfold minYear
    omega
  have high : estimateOfDay day < maxYear := by
    unfold maxYear
    omega
  refine ⟨?_, fun _ => numberOfDay_eq_iff, fun year held => ?_,
    fun number => ⟨?_, isLeapYear_iff_dvd number, isLeapYearInWord_eq number⟩⟩
  · rw [numberOfDayIn_wrapping low high]
    rfl
  · rw [firstDayIn_eq WordArithmetic.exact_wrapping held]
    rfl
  · rw [firstDay_succ, yearLength]
    split <;> omega

/-- From the epoch to the first of these years it is too far for 32 bits. -/
theorem numberOfDay_found_behind_word :
    ¬ IsYear (-784353012911 * 400 / 146097) ∧
      (numberOfDayIn .wrapping (-784353012911)).run = -2147483640 := by
  have lower : (of (-2147483640)).firstDay ≤ -784353012911 := by decide
  obtain ⟨found, unique, -⟩ := numberOfDay_found_in_one_step lower (by decide)
  rw [found]
  exact ⟨by decide, (unique (-2147483640)).mpr (by decide)⟩

end Year
end CivilTime
