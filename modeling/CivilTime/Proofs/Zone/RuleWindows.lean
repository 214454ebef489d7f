import CivilTime.Proofs.Calendar.Dates
import CivilTime.Proofs.Zone.Rules
import CivilTime.Proofs.Zone.Windows

/-!
# Windows of annual rules

A rule has one window in each year. Two rules take turns if each leaves the offset that the other
starts from and their windows keep to their years. Rules whose seasons are away from the turn of
the year do so in every year that is representable as a whole.
-/
namespace CivilTime.Zone

/-- The window of the transition of a rule in a year. -/
def AnnualRule.window (rule : AnnualRule) (year : Year) : Window where
  instant := rule.localTransition year - rule.before
  before := rule.before
  after := rule.after

/-- The transition of a rule in a year and all its local times lie in that year. -/
structure AnnualRule.StaysIn (rule : AnnualRule) (number : Int) : Prop where
  instant : (yearOf (rule.window (Year.of number)).instant).number = number
  readings : ∀ localTime, (rule.window (Year.of number)).start ≤ localTime →
    localTime ≤ (rule.window (Year.of number)).stop → (yearOf localTime).number = number

namespace AnnualRule.StaysIn

variable {rule : AnnualRule} {number : Int}

theorem start (stays : rule.StaysIn number) :
    (yearOf (rule.window (Year.of number)).start).number = number :=
  stays.readings _ (Int.le_refl _) (Window.start_le_stop _)

theorem stop (stays : rule.StaysIn number) :
    (yearOf (rule.window (Year.of number)).stop).number = number :=
  stays.readings _ (Window.start_le_stop _) (Int.le_refl _)

/-- An offset is what separates an instant from a local time of the same year. -/
theorem before_bounds (stays : rule.StaysIn 1678) :
    -(365 * nsPerDay) < rule.before ∧ rule.before < 365 * nsPerDay := by
  have left := yearOf_number_eq_iff.mp stays.instant
  have right := yearOf_number_eq_iff.mp
    (stays.readings _ (Window.start_le_before _) (Window.before_le_stop _))
  have length : (Year.of (1678 + 1)).firstDay * nsPerDay
      = (Year.of 1678).firstDay * nsPerDay + 365 * nsPerDay := by decide
  have side : (rule.window (Year.of 1678)).before = rule.before := rfl
  omega

end AnnualRule.StaysIn

/-- Each of two rules leaves the offset that the other starts from. In every year that is
representable as a whole their windows follow each other and stay in the year. -/
structure TakeTurns (early late : AnnualRule) : Prop where
  forth : early.offsetAfter = late.offsetBefore
  back : late.offsetAfter = early.offsetBefore
  inYear : ∀ number, 1678 ≤ number → number ≤ 2261 → early.StaysIn number ∧ late.StaysIn number
  apart : ∀ number, 1678 ≤ number → number ≤ 2261 →
    (early.window (Year.of number)).stop ≤ (late.window (Year.of number)).start

namespace TakeTurns

variable {early late : AnnualRule}

theorem after_early (turns : TakeTurns early late) : early.after = late.before := by
  rw [AnnualRule.after, AnnualRule.before, turns.forth]

theorem after_late (turns : TakeTurns early late) : late.after = early.before := by
  rw [AnnualRule.after, AnnualRule.before, turns.back]

theorem staysIn (turns : TakeTurns early late) {rule : AnnualRule} (member : rule ∈ [early, late])
    {number : Int} (lower : 1678 ≤ number) (upper : number ≤ 2261) : rule.StaysIn number := by
  have both := turns.inYear number lower upper
  rcases List.mem_pair.mp member with rfl | rfl
  · exact both.1
  · exact both.2

end TakeTurns

/-! ### Seasons -/

theorem nextOrSameWeekday_bounds (day : Int) (weekday : Option Nat) :
    day ≤ weekday.elim day (nextOrSameWeekday day) ∧
      weekday.elim day (nextOrSameWeekday day) ≤ day + 6 := by
  cases weekday with
  | none => exact ⟨Int.le_refl _, Int.le_add_of_nonneg_right (by decide)⟩
  | some weekday =>
    simp only [Option.elim, nextOrSameWeekday]
    omega

theorem previousOrSameWeekday_bounds (day : Int) (weekday : Option Nat) :
    day - 6 ≤ weekday.elim day (previousOrSameWeekday day) ∧
      weekday.elim day (previousOrSameWeekday day) ≤ day := by
  cases weekday with
  | none => exact ⟨Int.sub_le_self _ (by decide), Int.le_refl _⟩
  | some weekday =>
    simp only [Option.elim, previousOrSameWeekday]
    omega

namespace AnnualRule

/-- Leap days, weekdays and the end of the day move a rule by about a week. -/
theorem day_near (rule : AnnualRule) (number : Int) :
    (Year.of number).firstDay + rule.approximateYearDay - 7 ≤ rule.day (Year.of number) ∧
      rule.day (Year.of number) ≤ (Year.of number).firstDay + rule.approximateYearDay + 7 := by
  have start := daysBeforeMonth_leap (Year.of number).leap rule.month
  have stop := daysBeforeMonth_leap (Year.of number).leap (rule.month + 1)
  rw [daysBeforeMonth_succ, daysBeforeMonth_succ] at stop
  unfold day approximateYearDay
  by_cases fromEnd : rule.monthDay < 0
  · have back := previousOrSameWeekday_bounds (rollingDay (Year.of number).number rule.month
      (daysInMonth (Year.of number).leap rule.month + 1 + rule.monthDay)) rule.weekday
    have base : rollingDay (Year.of number).number rule.month
        (daysInMonth (Year.of number).leap rule.month + 1 + rule.monthDay)
      = (Year.of number).firstDay + daysBeforeMonth (Year.of number).leap rule.month
        + (daysInMonth (Year.of number).leap rule.month + 1 + rule.monthDay) - 1 := rfl
    simp only [if_pos fromEnd]
    split_ifs at * <;> omega
  · have ahead := nextOrSameWeekday_bounds (rollingDay (Year.of number).number rule.month
      rule.monthDay) rule.weekday
    have base : rollingDay (Year.of number).number rule.month rule.monthDay
      = (Year.of number).firstDay + daysBeforeMonth (Year.of number).leap rule.month
        + rule.monthDay - 1 := rfl
    simp only [if_neg fromEnd]
    split_ifs at * <;> omega

/-- The start of the day after the one that the rule names before it moves to a weekday. -/
def approximate (rule : AnnualRule) (number : Int) : Int :=
  ((Year.of number).firstDay + rule.approximateYearDay) * nsPerDay

/-- A rule of a season away from the turn of the year, with clocks at most a day off. -/
structure Seasonal (rule : AnnualRule) : Prop where
  season : 13 ≤ rule.approximateYearDay ∧ rule.approximateYearDay ≤ 350
  time : -86400 ≤ rule.time ∧ rule.time ≤ 86400
  before : -86400 ≤ rule.offsetBefore ∧ rule.offsetBefore ≤ 86400
  after : -86400 ≤ rule.offsetAfter ∧ rule.offsetAfter ≤ 86400
  standard : -86400 ≤ rule.standardOffset ∧ rule.standardOffset ≤ 86400

theorem clamp_bounds {low high n : Int} (least : Representable low) (greatest : Representable high)
    (lower : low ≤ n) (upper : n ≤ high) : low ≤ clamp n ∧ clamp n ≤ high := by
  have above := clamp_mono lower
  have below := clamp_mono upper
  rw [clamp_of_representable least] at above
  rw [clamp_of_representable greatest] at below
  exact ⟨above, below⟩

namespace Seasonal

variable {rule : AnnualRule} {number : Int}

theorem wallShift_bounds (seasonal : rule.Seasonal) :
    -(2 * nsPerDay) ≤ rule.wallShift ∧ rule.wallShift ≤ 2 * nsPerDay :=
  wallShift_within seasonal.before seasonal.standard

theorem time_bounds (seasonal : rule.Seasonal) :
    -nsPerDay ≤ rule.time * nsPerSecond ∧ rule.time * nsPerSecond ≤ nsPerDay := by
  have time := seasonal.time
  simp only [nsPerDay, nsPerHour, nsPerMinute, nsPerSecond]
  omega

theorem approximate_fits (seasonal : rule.Seasonal) (lower : 1678 ≤ number) (upper : number ≤ 2261)
    {days : Int} (low : -10 ≤ days) (high : days ≤ 10) :
    Representable (rule.approximate number + days * nsPerDay) := by
  have begun := Year.firstDay_le_iff.mpr lower
  have ended := Year.firstDay_le_iff.mpr upper
  have season := seasonal.season
  have least : minNanos ≤ (Year.of 1678).firstDay * nsPerDay := by decide
  have greatest : ((Year.of 2261).firstDay + 365) * nsPerDay ≤ maxNanos := by decide
  unfold approximate
  simp only [nsPerDay, nsPerHour, nsPerMinute, nsPerSecond] at least greatest ⊢
  exact ⟨by omega, by omega⟩

/-- The days around the approximate one belong to the year, so clamps do not move the rule. -/
theorem localTransition_near (seasonal : rule.Seasonal) (lower : 1678 ≤ number)
    (upper : number ≤ 2261) :
    rule.approximate number - 10 * nsPerDay ≤ rule.localTransition (Year.of number) ∧
      rule.localTransition (Year.of number) ≤ rule.approximate number + 10 * nsPerDay := by
  have near : rule.approximate number - 7 * nsPerDay ≤ rule.day (Year.of number) * nsPerDay ∧
      rule.day (Year.of number) * nsPerDay ≤ rule.approximate number + 7 * nsPerDay := by
    have days := rule.day_near number
    unfold approximate
    simp only [nsPerDay, nsPerHour, nsPerMinute, nsPerSecond]
    omega
  have time := seasonal.time_bounds
  have shift := seasonal.wallShift_bounds
  have fits : ∀ days, -10 ≤ days → days ≤ 10 →
      Representable (rule.approximate number + days * nsPerDay) :=
    fun _ => seasonal.approximate_fits lower upper
  -- The three clamps, each around a sum that is near the approximate day.
  have day := clamp_bounds (n := rule.day (Year.of number) * nsPerDay)
    (fits (-7) (by decide) (by decide)) (fits 7 (by decide) (by decide))
    (by omega) (by omega)
  have clock := clamp_bounds
    (n := clamp (rule.day (Year.of number) * nsPerDay) + rule.time * nsPerSecond)
    (fits (-8) (by decide) (by decide)) (fits 8 (by decide) (by decide)) (by omega) (by omega)
  have wall := clamp_bounds
    (n := clamp (clamp (rule.day (Year.of number) * nsPerDay) + rule.time * nsPerSecond)
      + rule.wallShift)
    (fits (-10) (by decide) (by decide)) (fits 10 (by decide) (by decide)) (by omega) (by omega)
  unfold localTransition
  omega

/-- Neither clocks nor offsets lead out of the year. -/
theorem yearOf_near (seasonal : rule.Seasonal) {n : Int}
    (low : rule.approximate number - 12 * nsPerDay ≤ n)
    (high : n ≤ rule.approximate number + 12 * nsPerDay) : (yearOf n).number = number := by
  have season := seasonal.season
  have days : 365 ≤ yearLength number := by
    unfold yearLength
    split <;> omega
  rw [yearOf_number_eq_iff, Year.firstDay_succ]
  unfold approximate at low high
  simp only [nsPerDay, nsPerHour, nsPerMinute, nsPerSecond] at low high ⊢
  omega

theorem window_near (seasonal : rule.Seasonal) (lower : 1678 ≤ number) (upper : number ≤ 2261) :
    rule.approximate number - 12 * nsPerDay ≤ (rule.window (Year.of number)).start ∧
      (rule.window (Year.of number)).stop ≤ rule.approximate number + 12 * nsPerDay := by
  have near := seasonal.localTransition_near lower upper
  have before := seasonal.before
  have after := seasonal.after
  simp only [Window.start, Window.stop, window, AnnualRule.before, AnnualRule.after]
  simp only [nsPerDay, nsPerHour, nsPerMinute, nsPerSecond] at near ⊢
  omega

theorem staysIn (seasonal : rule.Seasonal) (lower : 1678 ≤ number) (upper : number ≤ 2261) :
    rule.StaysIn number := by
  obtain ⟨begun, ended⟩ := seasonal.window_near lower upper
  have near := seasonal.localTransition_near lower upper
  have before := seasonal.before
  constructor
  · apply seasonal.yearOf_near
    all_goals
      simp only [window, AnnualRule.before]
      simp only [nsPerDay, nsPerHour, nsPerMinute, nsPerSecond] at near ⊢
      omega
  -- Between two local times of the year there are only local times of the year.
  · intro localTime started stopped
    exact seasonal.yearOf_near (Int.le_trans begun started) (Int.le_trans stopped ended)

end Seasonal
end AnnualRule

/-- Rules of seasons at least 24 days apart take turns. -/
theorem TakeTurns.of_seasons {early late : AnnualRule} (first : early.Seasonal)
    (second : late.Seasonal) (forth : early.offsetAfter = late.offsetBefore)
    (back : late.offsetAfter = early.offsetBefore)
    (gap : early.approximateYearDay + 24 ≤ late.approximateYearDay) : TakeTurns early late where
  forth := forth
  back := back
  inYear := fun _ lower upper => ⟨first.staysIn lower upper, second.staysIn lower upper⟩
  apart := by
    intro number lower upper
    have ended := (first.window_near lower upper).2
    have begun := (second.window_near lower upper).1
    unfold AnnualRule.approximate at ended begun
    simp only [nsPerDay, nsPerHour, nsPerMinute, nsPerSecond] at ended begun
    omega

end CivilTime.Zone
