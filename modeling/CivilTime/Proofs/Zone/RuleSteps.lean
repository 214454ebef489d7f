import CivilTime.Proofs.Calendar.WordYears
import CivilTime.Proofs.Zone.RuleWindows
import CivilTime.Proofs.Zone.Tables

/-!
# Rules in words

The transition of a rule in a year, written out in single steps that leave their results in words of
64 bits. Days are far from the ends of such a word in all years of 32 bits, and two offsets of
32-bit seconds are less than half of it apart, so no step leaves its word, whatever the leap flag.
What follows, the nanoseconds of the transition, is clamped.
-/
namespace CivilTime

/-! ### Days in steps -/

section Steps

variable {m : Type → Type} [Monad m] (words : WordArithmetic m)

/-- The epoch day that is `day - 1` days after the first of the month, one step at a time. -/
def rollingDayIn (number : Int) (month : Nat) (day : Int) : m Int := do
  let leap := isLeapYearInWord number
  let start ← Year.firstDayIn words ⟨number, leap⟩
  let first ← words.in64 (start + daysBeforeMonth leap month)
  let next ← words.in64 (first + day)
  words.in64 (next - 1)

/-- The weekday of an epoch day, one step at a time. -/
def weekdayOfDayIn (day : Int) : m Int := do
  let shifted ← words.in64 (day + 4)
  let shifted ← words.in64 (shifted - 1)
  words.in64 (shifted % 7 + 1)

/-- The first day from `day` on that falls on `weekday`, one step at a time. -/
def nextOrSameWeekdayIn (day : Int) (weekday : Nat) : m Int := do
  let current ← weekdayOfDayIn words day
  let ahead ← words.in64 (weekday - current)
  words.in64 (day + ahead % 7)

/-- The last day up to `day` that falls on `weekday`, one step at a time. -/
def previousOrSameWeekdayIn (day : Int) (weekday : Nat) : m Int := do
  let current ← weekdayOfDayIn words day
  let back ← words.in64 (current - weekday)
  words.in64 (day - back % 7)

namespace Zone.AnnualRule

/-- The day that the rule names in a year before a midnight at its end, one step at a time. -/
def namedDayIn (rule : AnnualRule) (year : Year) : m Int :=
  if rule.monthDay < 0 then do
    let length ← words.in64 (daysInMonth year.leap rule.month + 1)
    let monthDay ← words.in64 (length + rule.monthDay)
    let last ← rollingDayIn words year.number rule.month monthDay
    rule.weekday.elim (pure last) (previousOrSameWeekdayIn words last)
  else do
    let first ← rollingDayIn words year.number rule.month rule.monthDay
    rule.weekday.elim (pure first) (nextOrSameWeekdayIn words first)

/-- The epoch day that the rule names in a year, one step at a time. -/
def dayIn (rule : AnnualRule) (year : Year) : m Int := do
  let named ← rule.namedDayIn words year
  if rule.endOfDay then words.in64 (named + 1) else return named

/-- What turns the time of the rule's clock into wall-clock time, in one step. -/
def wallShiftIn (rule : AnnualRule) : m Int :=
  match rule.clock with
  | .utc => return rule.before
  | .standard => words.in64 (rule.before - rule.standard)
  | .wall => return 0

/-- The local time of the transition in a year, one step at a time. Behind the day and the clock all
steps are clamped. -/
def localTransitionIn (rule : AnnualRule) (year : Year) : m Int := do
  let day ← rule.dayIn words year
  let shift ← rule.wallShiftIn words
  return clamp (clamp (clamp (day * nsPerDay) + rule.time * nsPerSecond) + shift)

end Zone.AnnualRule
end Steps

/-- The day is at most 10^12 days from the epoch, as are all days of the years of 32 bits. -/
def IsWordDay (day : Int) : Prop := -1000000000000 ≤ day ∧ day ≤ 1000000000000

theorem Year.firstDay_bounds (year : Year) (held : IsYear year.number) :
    -800000000000 ≤ year.firstDay ∧ year.firstDay ≤ 800000000000 := by
  have flag := Bool.toNat_le year.leap
  have before : leapYearsThrough 1969 = 477 := rfl
  unfold IsYear minYear maxYear at held
  unfold firstDay
  rw [before]
  unfold leapYearsThrough
  omega

theorem daysBeforeMonth_le (leap : Bool) {month : Nat} (range : month ≤ 12) :
    daysBeforeMonth leap month ≤ 366 := by
  have whole := daysBeforeMonth_mono leap (Nat.le_succ_of_le range)
  have year : daysBeforeMonth leap 13 ≤ 366 := by cases leap <;> decide
  exact Nat.le_trans whole year

theorem rollingDay_bounds (day : Int) {number : Int} {month : Nat} (held : IsYear number)
    (range : month ≤ 12) (low : -100000 ≤ day) (high : day ≤ 100000) :
    -900000000000 ≤ rollingDay number month day ∧ rollingDay number month day ≤ 900000000000 := by
  have bounds := Year.firstDay_bounds (Year.of number) held
  have before := daysBeforeMonth_le (Year.of number).leap range
  simp only [rollingDay]
  omega

section Exact

variable {m : Type → Type} [Monad m] [LawfulMonad m] {words : WordArithmetic m}

theorem rollingDayIn_eq (precise : words.Exact) {number day : Int} {month : Nat}
    (held : IsYear number) (range : month ≤ 12) (low : -100000 ≤ day) (high : day ≤ 100000) :
    rollingDayIn words number month day = pure (rollingDay number month day) := by
  have bounds := Year.firstDay_bounds (Year.of number) held
  have before := daysBeforeMonth_le (Year.of number).leap range
  have start : (Year.of number).firstDayIn words = pure (Year.of number).firstDay :=
    Year.firstDayIn_eq precise held
  simp only [rollingDayIn, isLeapYearInWord_eq]
  simp only [Year.of] at bounds before start
  rw [start, pure_bind, precise.in64_of_small (by omega) (by omega), pure_bind,
    precise.in64_of_small (by omega) (by omega), pure_bind,
    precise.in64_of_small (by omega) (by omega)]
  rfl

theorem weekdayOfDayIn_eq (precise : words.Exact) {day : Int} (held : IsWordDay day) :
    weekdayOfDayIn words day = pure (weekdayOfDay day : Int) := by
  obtain ⟨low, high⟩ := held
  have counted : (day + 4 - 1) % 7 + 1 = (weekdayOfDay day : Int) := by
    unfold weekdayOfDay
    omega
  rw [weekdayOfDayIn, precise.in64_of_small (by omega) (by omega), pure_bind,
    precise.in64_of_small (by omega) (by omega), pure_bind,
    precise.in64_of_small (by omega) (by omega), counted]

theorem weekdayOfDay_le (day : Int) : weekdayOfDay day ≤ 7 := by
  unfold weekdayOfDay
  omega

theorem nextOrSameWeekdayIn_eq (precise : words.Exact) {day : Int} {weekday : Nat}
    (held : IsWordDay day) (range : weekday ≤ 7) :
    nextOrSameWeekdayIn words day weekday = pure (nextOrSameWeekday day weekday) := by
  obtain ⟨low, high⟩ := held
  have current := weekdayOfDay_le day
  rw [nextOrSameWeekdayIn, weekdayOfDayIn_eq precise ⟨low, high⟩, pure_bind,
    precise.in64_of_small (by omega) (by omega), pure_bind]
  exact precise.in64_of_small (by omega) (by omega)

theorem previousOrSameWeekdayIn_eq (precise : words.Exact) {day : Int} {weekday : Nat}
    (held : IsWordDay day) (range : weekday ≤ 7) :
    previousOrSameWeekdayIn words day weekday = pure (previousOrSameWeekday day weekday) := by
  obtain ⟨low, high⟩ := held
  have current := weekdayOfDay_le day
  rw [previousOrSameWeekdayIn, weekdayOfDayIn_eq precise ⟨low, high⟩, pure_bind,
    precise.in64_of_small (by omega) (by omega), pure_bind]
  exact precise.in64_of_small (by omega) (by omega)

end Exact

namespace Zone

/-- The day of the month is kept in a word of 16 bits, the times of a rule in words of 32 bits. -/
structure AnnualRule.InWords (rule : AnnualRule) : Prop where
  offsetBefore : IsOffset rule.offsetBefore
  offsetAfter : IsOffset rule.offsetAfter
  standardOffset : IsOffset rule.standardOffset
  monthDay : -32768 ≤ rule.monthDay ∧ rule.monthDay ≤ 32767
  time : IsOffset rule.time

namespace AnnualRule

variable {rule : AnnualRule} {year : Year}

/-- The day that the rule names in a year before a midnight at its end. -/
def namedDay (rule : AnnualRule) (year : Year) : Int :=
  if rule.monthDay < 0 then
    let last := rollingDay year.number rule.month
      (daysInMonth year.leap rule.month + 1 + rule.monthDay)
    rule.weekday.elim last (previousOrSameWeekday last)
  else
    let first := rollingDay year.number rule.month rule.monthDay
    rule.weekday.elim first (nextOrSameWeekday first)

theorem day_eq_namedDay (rule : AnnualRule) (year : Year) :
    rule.day year = if rule.endOfDay then rule.namedDay year + 1 else rule.namedDay year :=
  rfl

theorem isWordDay_namedDay (valid : rule.Valid) (held : rule.InWords)
    (inWord : IsYear year.number) : IsWordDay (rule.namedDay year) := by
  have monthDay := held.monthDay
  have length := daysInMonth_le year.leap rule.month
  have month := valid.month.2
  simp only [namedDay, IsWordDay]
  split
  · have bounds := rollingDay_bounds (daysInMonth year.leap rule.month + 1 + rule.monthDay) inWord
      month (by omega) (by omega)
    have back := previousOrSameWeekday_bounds (rollingDay year.number rule.month
      (daysInMonth year.leap rule.month + 1 + rule.monthDay)) rule.weekday
    omega
  · have bounds := rollingDay_bounds rule.monthDay inWord month (by omega) (by omega)
    have ahead := nextOrSameWeekday_bounds (rollingDay year.number rule.month rule.monthDay)
      rule.weekday
    omega

section Exact

variable {m : Type → Type} [Monad m] {words : WordArithmetic m}

/-- Without a weekday there are no steps to one. -/
theorem Valid.elim_weekday (valid : rule.Valid) {day : Int} {moveIn : Nat → m Int}
    {move : Nat → Int} (moves : ∀ weekday ≤ 7, moveIn weekday = pure (move weekday)) :
    rule.weekday.elim (pure day) moveIn = pure (rule.weekday.elim day move) := by
  cases given : rule.weekday with
  | none => rfl
  | some weekday => exact moves weekday (valid.weekday weekday given).2

theorem wallShiftIn_eq (precise : words.Exact) (held : rule.InWords) :
    rule.wallShiftIn words = pure rule.wallShift := by
  have before := held.offsetBefore
  have standard := held.standardOffset
  unfold wallShiftIn wallShift
  cases rule.clock with
  | utc => rfl
  | wall => rfl
  | standard =>
    -- Two offsets of 32-bit seconds are less than half the range apart.
    apply precise.in64
    unfold IsOffset at before standard
    unfold Representable minNanos maxNanos AnnualRule.before AnnualRule.standard nsPerSecond
    omega

variable [LawfulMonad m]

theorem namedDayIn_eq (precise : words.Exact) (valid : rule.Valid) (held : rule.InWords)
    (inWord : IsYear year.number) : rule.namedDayIn words year = pure (rule.namedDay year) := by
  have monthDay := held.monthDay
  have length := daysInMonth_le year.leap rule.month
  have month := valid.month.2
  unfold namedDayIn namedDay
  split
  · have bounds := rollingDay_bounds (daysInMonth year.leap rule.month + 1 + rule.monthDay) inWord
      month (by omega) (by omega)
    rw [precise.in64_of_small (by omega) (by omega), pure_bind,
      precise.in64_of_small (by omega) (by omega), pure_bind,
      rollingDayIn_eq precise inWord month (by omega) (by omega), pure_bind]
    exact valid.elim_weekday fun _ => previousOrSameWeekdayIn_eq precise ⟨by omega, by omega⟩
  · have bounds := rollingDay_bounds rule.monthDay inWord month (by omega) (by omega)
    rw [rollingDayIn_eq precise inWord month (by omega) (by omega), pure_bind]
    exact valid.elim_weekday fun _ => nextOrSameWeekdayIn_eq precise ⟨by omega, by omega⟩

theorem dayIn_eq (precise : words.Exact) (valid : rule.Valid) (held : rule.InWords)
    (inWord : IsYear year.number) : rule.dayIn words year = pure (rule.day year) := by
  obtain ⟨low, high⟩ := isWordDay_namedDay valid held inWord
  rw [dayIn, namedDayIn_eq precise valid held inWord, pure_bind, day_eq_namedDay]
  split
  · exact precise.in64_of_small (by omega) (by omega)
  · rfl

/-- No year of 32 bits takes a rule out of words, with either leap flag. -/
theorem localTransitionIn_eq (precise : words.Exact) (valid : rule.Valid) (held : rule.InWords)
    (inWord : IsYear year.number) :
    rule.localTransitionIn words year = pure (rule.localTransition year) := by
  rw [localTransitionIn, dayIn_eq precise valid held inWord, pure_bind, wallShiftIn_eq precise held,
    pure_bind]
  rfl

end Exact
end AnnualRule

end Zone
end CivilTime
